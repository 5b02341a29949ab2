import Klyro.Evict
import Klyro.Store.Glances
import Klyro.Store.Runs

/-!
# Recency

* `Store.stamps` — the logical time each key carries.
* `find_ages`, `insertEntry_ages`, `removeEntry_ages` — what the operations of the store are made
  of does to the times and to the clock.
* `StoreOp.reached`, `StoreOp.made` — the keys an operation reads or writes, and the key it makes
  without looking anything up.
* `exec_ages` — what one operation does to the times.
* `Aged` — a store with the step of each key's last access; `exactAlong_iff` says when the order of
  the times is the order of the accesses, in every state of a run.
-/

set_option autoImplicit false

namespace Klyro

namespace Store

open Keyspace

variable {α τ : Type} {e : Env} {s s' : Store} {w : World} {key : Bytes}

/-- The logical time a key carries. -/
def stamps (s : Store) : Bytes → Option Nat := fun k =>
  (s.map.lookup k).map fun entry => entry.access.accessedAt

/-- The logical clock and the times. -/
def ages (s : Store) : Nat × (Bytes → Option Nat) := (s.clock, s.stamps)

theorem ages_ext {c : Nat} {f : Bytes → Option Nat} (hclock : s.clock = c)
    (hstamps : ∀ k, s.stamps k = f k) : s.ages = (c, f) := Prod.ext hclock (funext hstamps)

theorem isSome_stamps (k : Bytes) : (s.stamps k).isSome = (s.map.lookup k).isSome :=
  Option.isSome_map ..

/-! ## Steps that touch no time -/

theorem ages_detachVolatile (slot : Nat) : Act.Preserves ages (detachVolatile slot) := by
  intro e s w
  unfold detachVolatile
  rw [Act.sat_bind, Act.sat_get]
  split
  · trivial
  · refine ages_ext rfl fun k => ?_
    apply map_lookup_repair
    exact fun _ => rfl

theorem ages_syncVolatile (key : Bytes) : Act.Preserves ages (syncVolatile key) := by
  intro e s w
  unfold syncVolatile
  rw [Act.sat_bind, Act.sat_get]
  split
  · rfl
  · split
    · refine ages_ext rfl fun k => ?_
      apply map_lookup_adjust
      exact fun _ => rfl
    · rw [Act.sat_bind, Act.sat_set]
      refine Act.sat_mono (ages_detachVolatile _ e _ w) ?_ (fun _ h => h)
      refine fun _ s' _ hs' => hs'.trans (ages_ext rfl fun k => ?_)
      apply map_lookup_adjust
      exact fun _ => rfl
    · rfl

theorem ages_adjust {f : Entry → Entry} (h : ∀ entry, (f entry).access = entry.access) :
    Act.Preserves ages (Act.modify (adjustEntry key f) : Run Store Unit) := by
  refine Act.preserves_modify fun s => ages_ext rfl fun k => ?_
  apply map_lookup_adjust
  exact fun entry => by rw [h]

theorem ages_useValue (V : Variant τ) (key : Bytes) (use : Run τ α) :
    Act.Preserves ages (useValue V key use) := by
  refine Act.preserves_bind Act.preserves_get fun s => ?_
  refine Act.preserves_bind ?_ fun entry => Act.preserves_bind ?_ fun v => Act.preserves_bind ?_ fun _ =>
    Act.preserves_pure _
  · cases s.map.lookup key with
    | none => exact Act.preserves_panic _
    | some entry => exact Act.preserves_pure entry
  · cases V.unwrap entry.value with
    | none => exact Act.preserves_panic _
    | some v => exact Act.preserves_pure v
  · refine Act.preserves_zoom fun _ s => ages_ext rfl fun k => ?_
    apply map_lookup_adjust
    exact fun _ => rfl

theorem ages_cloneValue (v : Value) : Act.Preserves ages (cloneValue v) := by
  cases v with
  | memory m =>
    exact Act.preserves_bind (Act.preserves_zoom fun _ _ => rfl) fun _ => Act.preserves_pure _
  | str _ => exact Act.preserves_pure _
  | list _ => exact Act.preserves_pure _
  | hash _ => exact Act.preserves_pure _
  | set _ => exact Act.preserves_pure _
  | zset _ => exact Act.preserves_pure _

/-! ## Steps that do -/

/-- A removed key has no time. -/
theorem removeEntry_ages (key : Bytes) : Act.Sat (removeEntry key) e s w
    (fun r s' w' => r = s.map.lookup key ∧ w' = w ∧
      s'.ages = (s.clock, Function.update s.stamps key none)) (fun _ => True) := by
  unfold removeEntry
  rw [Act.sat_bind, Act.sat_get]
  cases hentry : s.map.lookup key with
  | none =>
    have hnone : s.stamps key = none := congrArg (Option.map _) hentry
    refine ⟨rfl, rfl, ages_ext rfl fun k => ?_⟩
    rw [← hnone, Function.update_eq_self]
  | some entry =>
    have herased : ∀ k, (((s.map.erase key).lookup k).map fun x : Entry => x.access.accessedAt) =
        Function.update s.stamps key none k := by
      intro k
      rw [Assoc.lookup_erase_eq]
      by_cases hk : k = key
      · subst hk
        simp
      · rw [if_neg hk, Function.update_of_ne hk]
        rfl
    dsimp only
    split
    · trivial
    · rename_i keys _
      rw [Act.sat_bind, Act.sat_set]
      have hrepaired : ages { s with
          map := repair keys entry.slot (fun e => { e with slot := entry.slot }) (s.map.erase key)
          keys := keys } = (s.clock, Function.update s.stamps key none) := by
        refine ages_ext rfl fun k => ?_
        rw [← herased]
        apply map_lookup_repair
        exact fun _ => rfl
      cases entry.volatileSlot with
      | none => exact ⟨rfl, rfl, hrepaired⟩
      | some slot =>
        dsimp only
        rw [Act.sat_bind]
        have hticks : Act.Sat (detachVolatile slot) e { s with
            map := repair keys entry.slot (fun e => { e with slot := entry.slot }) (s.map.erase key)
            keys := keys } w (fun _ _ w' => w' = w) (fun _ => True) := by
          unfold detachVolatile
          rw [Act.sat_bind, Act.sat_get]
          split
          · trivial
          · rfl
        refine Act.sat_mono (Act.sat_and (ages_detachVolatile slot e _ w) hticks) ?_ (fun _ _ => trivial)
        rintro _ s' w' ⟨hages, rfl⟩
        exact ⟨rfl, rfl, hages.trans hrepaired⟩

/-- An inserted key carries the time of its entry. -/
theorem insertEntry_ages (key : Bytes) (entry : Entry) : Act.Sat (insertEntry key entry) e s w
    (fun _ s' _ => s'.ages =
      (s.clock, Function.update s.stamps key (some entry.access.accessedAt))) (fun _ => True) := by
  unfold insertEntry
  rw [Act.sat_bind, Act.sat_get]
  have hinserted : ∀ (slot : Nat) (volatileSlot : Option Nat) (k : Bytes),
      (((s.map.insert key (entry.placedAt slot volatileSlot)).lookup k).map
        fun x : Entry => x.access.accessedAt) =
          Function.update s.stamps key (some entry.access.accessedAt) k := by
    intro slot volatileSlot k
    rw [Assoc.lookup_insert_eq]
    by_cases hk : k = key
    · subst hk
      simp [Entry.placedAt]
    · rw [if_neg hk, Function.update_of_ne hk]
      rfl
  cases s.map.lookup key with
  | none =>
    dsimp only
    rw [Act.sat_bind, Act.sat_set]
    refine Act.sat_mono (ages_syncVolatile key e _ w) ?_ (fun _ h => h)
    exact fun _ s' _ hs' => hs'.trans (ages_ext rfl (hinserted _ _))
  | some previous =>
    dsimp only
    rw [Act.sat_bind, Act.sat_set]
    refine Act.sat_mono (ages_syncVolatile key e _ w) ?_ (fun _ h => h)
    exact fun _ s' _ hs' => hs'.trans (ages_ext rfl (hinserted _ _))

theorem recordHit_accessedAt {σ : Type} {t : σ} (a : Access) (clock m : Nat) :
    Act.Sat (a.recordHit clock m) e t w (fun a' t' _ => a'.accessedAt = clock ∧ t' = t)
      (fun _ => False) := by
  unfold Access.recordHit
  simp only [Act.sat_ite, Act.sat_pure, Act.sat_bind, unitInterval, sat_nextU64]
  exact ⟨fun _ => ⟨trivial, trivial⟩, fun _ => ⟨trivial, trivial⟩⟩

/-- **`touch`** moves the clock on and stamps the key with it. -/
theorem touch_ages (hkey : (s.map.lookup key).isSome = true) : Act.Sat (touch key) e s w
    (fun _ s' _ => s'.ages = (s.clock + 1, Function.update s.stamps key (some (s.clock + 1))))
      (fun _ => False) := by
  unfold touch
  simp only [Act.sat_bind, Act.sat_modify]
  refine Act.sat_mono minute_spec ?_ (fun _ h => h)
  rintro m s₁ w₁ ⟨rfl, -⟩
  rw [Act.sat_get]
  obtain ⟨entry, hentry⟩ := Option.isSome_iff_exists.mp hkey
  dsimp only
  rw [hentry]
  dsimp only
  rw [Act.sat_bind]
  refine Act.sat_mono (recordHit_accessedAt _ _ _) ?_ (fun _ h => h)
  rintro access _ w₂ ⟨haccess, rfl⟩
  refine ages_ext rfl fun k => ?_
  show ((s.map.adjust key fun e => { e with access := access }).lookup k).map _ = _
  rw [Assoc.lookup_adjust]
  by_cases hk : k = key
  · subst hk
    rw [if_pos rfl, hentry, Function.update_self]
    exact congrArg some haccess
  · rw [if_neg hk, Function.update_of_ne hk]
    rfl

theorem expireIfDue_ages (key : Bytes) : Act.Sat (expireIfDue key) e s w (fun _ s' _ =>
    s'.clock = s.clock ∧ (∀ k, k ≠ key → s'.stamps k = s.stamps k) ∧
      (s'.stamps key = s.stamps key ∨ s'.stamps key = none)) (fun _ => True) := by
  unfold expireIfDue
  simp only [Act.sat_bind, sat_now, Act.sat_get]
  split
  · rw [Act.sat_bind]
    refine Act.sat_mono (removeEntry_ages key) ?_ (fun _ h => h)
    rintro _ s' w' ⟨-, -, hages⟩
    obtain ⟨hclock, hstamps⟩ := Prod.mk.inj hages
    refine ⟨hclock, fun k hk => (congrFun hstamps k).trans (Function.update_of_ne hk ..), .inr ?_⟩
    exact (congrFun hstamps key).trans (Function.update_self ..)
  · exact ⟨rfl, fun _ _ => rfl, .inl rfl⟩

/-- Whether a lookup finds a live entry. -/
def hits (e : Env) (w : World) (s : Store) (key : Bytes) : Bool :=
  (s.view.liveAt (e.clock w.ticks) key).isSome

/-- **`find`** stamps the key it finds with the next time, and touches no other time. -/
theorem find_ages (key : Bytes) : Act.Sat (find key) e s w (fun r s' _ =>
    r = s'.map.lookup key ∧ r.isSome = s.hits e w key ∧
      s'.ages = if s.hits e w key then
        (s.clock + 1, Function.update s.stamps key (some (s.clock + 1)))
      else (s.clock, Function.update s.stamps key none)) (fun _ => True) := by
  unfold find
  rw [Act.sat_bind]
  have hexpired := Act.sat_and (expireIfDue_spec (e := e) (s := s) (w := w) key)
    (expireIfDue_ages (e := e) (s := s) (w := w) key)
  refine Act.sat_mono hexpired ?_ (fun _ _ => trivial)
  rintro _ s₁ w₁ ⟨⟨-, hview, -⟩, hclock, hothers, -⟩
  have hfound : s₁.map.contains key = s.hits e w key := by
    unfold Assoc.contains hits
    rw [← isSome_view, hview, expire_self]
  rw [Act.sat_bind, Act.sat_get]
  dsimp only
  rw [Act.sat_bind, Act.sat_modify, hfound]
  cases hhit : s.hits e w key with
  | true =>
    rw [if_pos rfl, Act.sat_bind]
    have hkey : ((account true s₁).map.lookup key).isSome = true := hfound.trans hhit
    refine Act.sat_mono (touch_ages hkey) ?_ (fun _ h => h.elim)
    intro _ s₂ w₂ hages
    obtain ⟨hclock₂, hstamps₂⟩ := Prod.mk.inj hages
    have hclock' : (account true s₁).clock = s.clock := hclock
    rw [hclock'] at hclock₂ hstamps₂
    refine ⟨rfl, ?_, ?_⟩
    · rw [← isSome_stamps, hstamps₂, Function.update_self]
      rfl
    · show s₂.ages = (s.clock + 1, Function.update s.stamps key (some (s.clock + 1)))
      refine ages_ext hclock₂ fun k => (congrFun hstamps₂ k).trans ?_
      by_cases hk : k = key
      · subst hk
        rw [Function.update_self, Function.update_self]
      · rw [Function.update_of_ne hk, Function.update_of_ne hk]
        exact hothers k hk
  | false =>
    have hnone : (account false s₁).map.lookup key = none := by
      have hcontains := hfound.trans hhit
      unfold Assoc.contains at hcontains
      simpa [account] using hcontains
    rw [if_neg Bool.false_ne_true]
    refine ⟨rfl, ?_, ?_⟩
    · exact congrArg Option.isSome hnone
    · show (account false s₁).ages = (s.clock, Function.update s.stamps key none)
      refine ages_ext hclock fun k => ?_
      by_cases hk : k = key
      · subst hk
        rw [Function.update_self]
        show ((account false s₁).map.lookup k).map _ = none
        rw [hnone]
        rfl
      · rw [Function.update_of_ne hk]
        exact hothers k hk

/-- A new value is stamped with the clock as it stands. -/
theorem insertFresh_ages (value : Value) (deadline : Option SystemTime) : Act.Sat (do
    let entry ← fresh value deadline
    insertEntry key entry : Run Store Unit) e s w (fun _ s' _ =>
      s'.ages = (s.clock, Function.update s.stamps key (some s.clock))) (fun _ => True) := by
  have hfresh : Act.Sat (fresh value deadline) e s w
      (fun entry s' _ => entry.access.accessedAt = s.clock ∧ s' = s) (fun _ => False) := ⟨rfl, rfl⟩
  rw [Act.sat_bind]
  refine Act.sat_mono hfresh ?_ (fun _ h => h.elim)
  rintro entry s' w' ⟨haccess, rfl⟩
  refine Act.sat_mono (insertEntry_ages key entry) ?_ (fun _ h => h)
  intro _ s'' _ hages
  rw [hages, haccess]

end Store

/-! ## Operations -/

/-- The keys an operation reads, writes or creates: the one it names, and the other key of a RENAME
or COPY that found its source.  `peek_type`, the walks over the keyspace and removals reach none. -/
def StoreOp.reached (e : Env) (w : World) (s : Store) : StoreOp → List Bytes
  | .setString key _ | .updateString key _ | .del key | .setExpireAt key _
  | .getOrCreateList key _ | .readList key | .writeList key _
  | .getOrCreateHash key _ | .readHash key | .writeHash key _
  | .getOrCreateSet key _ | .readSet key | .writeSet key _
  | .getOrCreateZset key _ | .readZset key | .writeZset key _
  | .deleteIfEmpty key | .createMemory key _ | .existingMemory key _
  | .hasKey key | .typeOf key | .hasExpiry key | .ttl key | .pttlMs key | .getString key => [key]
  | .rename key other | .copy key other _ => if s.hits e w key then [key, other] else [key]
  | _ => []

/-- The key an operation makes or replaces without having found it. -/
def StoreOp.made (e : Env) (w : World) (s : Store) : StoreOp → Option Bytes
  | .setString key _ => some key
  | .updateString key _ | .createMemory key _ | .getOrCreateList key _ | .getOrCreateHash key _
  | .getOrCreateSet key _ | .getOrCreateZset key _ => if s.hits e w key then none else some key
  | _ => none

/-- What an operation does to the times: a key it reaches is stamped after everything before, unless
it is made, which stamps it with the clock as it stands. -/
structure Ages (reached : List Bytes) (made : Option Bytes) (s s' : Store) : Prop where
  clock : s.clock ≤ s'.clock
  others : ∀ k, k ∉ reached → s'.stamps k = s.stamps k ∨ s'.stamps k = none
  hit : made = none → ∀ k, k ∈ reached → ∀ n, s'.stamps k = some n → s.clock < n ∧ n ≤ s'.clock
  made : ∀ key, made = some key → reached = [key] ∧ s'.clock = s.clock ∧
    s'.stamps = Function.update s.stamps key (some s.clock)

section operations

open Store

variable {α τ : Type} {e : Env} {s s' : Store} {w : World} {key : Bytes}

theorem Ages.same (h : s'.ages = s.ages) : Ages [] none s s' := by
  obtain ⟨hclock, hstamps⟩ := Prod.mk.inj h
  exact ⟨hclock.ge, fun k _ => .inl (congrFun hstamps k), fun _ k hk => (by cases hk),
    fun _ h => by cases h⟩

/-- Nothing but keys that are gone. -/
theorem Ages.gone (hclock : s'.clock = s.clock)
    (hstamps : ∀ k, s'.stamps k = s.stamps k ∨ s'.stamps k = none) : Ages [] none s s' :=
  ⟨hclock.ge, fun k _ => hstamps k, fun _ k hk => (by cases hk), fun _ h => by cases h⟩

theorem Ages.looked (h : s'.ages = if s.hits e w key then
      (s.clock + 1, Function.update s.stamps key (some (s.clock + 1)))
    else (s.clock, Function.update s.stamps key none)) : Ages [key] none s s' := by
  split at h
  · obtain ⟨hclock, hstamps⟩ := Prod.mk.inj h
    refine ⟨by omega, fun k hk => ?_, fun _ k hk n hn => ?_, fun _ h => by cases h⟩
    · rw [hstamps, Function.update_of_ne (by simpa using hk)]
      exact .inl rfl
    · rw [hstamps, List.mem_singleton.mp hk, Function.update_self, Option.some.injEq] at hn
      omega
  · obtain ⟨hclock, hstamps⟩ := Prod.mk.inj h
    refine ⟨by omega, fun k hk => ?_, fun _ k hk n hn => ?_, fun _ h => by cases h⟩
    · rw [hstamps, Function.update_of_ne (by simpa using hk)]
      exact .inl rfl
    · rw [hstamps, List.mem_singleton.mp hk, Function.update_self] at hn
      cases hn

theorem Ages.fresh (h : s'.ages = (s.clock, Function.update s.stamps key (some s.clock))) :
    Ages [key] (some key) s s' := by
  obtain ⟨hclock, hstamps⟩ := Prod.mk.inj h
  refine ⟨hclock.ge, fun k hk => ?_, fun h => (by cases h), fun _ h => ?_⟩
  · rw [hstamps, Function.update_of_ne (by simpa using hk)]
    exact .inl rfl
  · cases h
    exact ⟨rfl, hclock, hstamps⟩

/-- A key that is found and then dropped is gone. -/
theorem Ages.dropped (h : Ages [key] none s s') {s'' : Store}
    (hages : s''.ages = (s'.clock, Function.update s'.stamps key none)) : Ages [key] none s s'' := by
  obtain ⟨hclock, hstamps⟩ := Prod.mk.inj hages
  refine ⟨hclock ▸ h.clock, fun k hk => ?_, fun _ k hk n hn => ?_, fun _ h => by cases h⟩
  · rw [hstamps, Function.update_of_ne (by simpa using hk)]
    exact h.others k hk
  · rw [hstamps, List.mem_singleton.mp hk, Function.update_self] at hn
    cases hn

theorem Ages.then_same {reached : List Bytes} {made : Option Bytes} (h : Ages reached made s s')
    {s'' : Store} (hages : s''.ages = s'.ages) : Ages reached made s s'' := by
  obtain ⟨hclock, hstamps⟩ := Prod.mk.inj hages
  refine ⟨hclock ▸ h.clock, fun k hk => hstamps ▸ h.others k hk, fun hmade k hk n hn => ?_,
    fun k hk => ?_⟩
  · rw [hclock]
    exact h.hit hmade k hk n (hstamps ▸ hn)
  · rw [hclock, hstamps]
    exact h.made k hk

theorem Ages.from_same {reached : List Bytes} {made : Option Bytes} {s₀ : Store}
    (h : Ages reached made s₀ s') (hages : s₀.ages = s.ages) : Ages reached made s s' := by
  obtain ⟨hclock, hstamps⟩ := Prod.mk.inj hages
  have hclock' : s₀.clock = s.clock := hclock
  have hstamps' : s₀.stamps = s.stamps := hstamps
  obtain ⟨h₁, h₂, h₃, h₄⟩ := h
  rw [hclock'] at h₁ h₃ h₄
  rw [hstamps'] at h₂ h₄
  exact ⟨h₁, h₂, h₃, h₄⟩

/-- An operation that looks its key up and changes no time after that. -/
theorem find_then {f : Option Entry → Run Store α} (hf : ∀ r, Act.Preserves ages (f r)) :
    Act.Sat (find key >>= f) e s w (fun _ s' _ => Ages [key] none s s') (fun _ => True) := by
  rw [Act.sat_bind]
  refine Act.sat_mono (find_ages key) ?_ (fun _ h => h)
  rintro r s₁ w₁ ⟨-, -, hages⟩
  exact Act.sat_mono (hf r e s₁ w₁) (fun _ _ _ h => (Ages.looked hages).then_same h) (fun _ h => h)

/-- An operation that looks its key up and makes it when it is not there. -/
theorem find_or_make (value : Value) {m : Option Entry → Run Store α} {pre : Run Store Unit}
    {g : Unit → Run Store α} (hsome : ∀ entry, Act.Preserves ages (m (some entry)))
    (hpre : Act.Preserves ages pre) (hg : ∀ u, Act.Preserves ages (g u))
    (hnone : m none = pre >>= fun _ => (do
      let entry ← fresh value none
      insertEntry key entry) >>= g) :
    Act.Sat (find key >>= m) e s w (fun _ s' _ =>
      Ages [key] (if s.hits e w key then none else some key) s s') (fun _ => True) := by
  rw [Act.sat_bind]
  refine Act.sat_mono (find_ages key) ?_ (fun _ h => h)
  rintro r s₁ w₁ ⟨-, hr, hages⟩
  cases r with
  | some entry =>
    have hhit : s.hits e w key = true := hr.symm
    rw [hhit, if_pos rfl]
    exact Act.sat_mono (hsome entry e s₁ w₁) (fun _ _ _ h => (Ages.looked hages).then_same h)
      (fun _ h => h)
  | none =>
    have hmiss : s.hits e w key = false := hr.symm
    rw [hmiss, if_neg Bool.false_ne_true] at hages
    obtain ⟨hclock, hstamps⟩ := Prod.mk.inj hages
    rw [hmiss, if_neg Bool.false_ne_true, hnone, Act.sat_bind]
    refine Act.sat_mono (hpre e s₁ w₁) ?_ (fun _ h => h)
    intro _ s₀ w₀ hages₀
    rw [Act.sat_bind]
    refine Act.sat_mono (insertFresh_ages value none) ?_ (fun _ h => h)
    intro u s₂ w₂ hages₂
    refine Act.sat_mono (hg u e s₂ w₂) (fun _ _ _ h => Ages.then_same (.fresh ?_) h) (fun _ h => h)
    obtain ⟨hclock₀, hstamps₀⟩ := Prod.mk.inj hages₀
    have hclock₁ : s₀.clock = s.clock := Eq.trans hclock₀ hclock
    have hstamps₁ : s₀.stamps = Function.update s.stamps key none := Eq.trans hstamps₀ hstamps
    rw [hages₂, hclock₁, hstamps₁, Function.update_idem]

theorem preserves_bumpDirty : Act.Preserves ages (Act.modify bumpDirty : Run Store Unit) :=
  Act.preserves_modify fun _ => rfl

theorem getOrCreate_ages (V : Variant τ) (use : Run τ α) :
    Act.Sat (Store.getOrCreate V key use) e s w (fun _ s' _ =>
      Ages [key] (if s.hits e w key then none else some key) s s') (fun _ => True) := by
  unfold Store.getOrCreate
  rw [Act.sat_bind, Act.sat_modify]
  refine Act.sat_mono (find_or_make (s := bumpDirty s) (V.wrap V.empty) (fun entry => ?_)
    (Act.preserves_pure ()) (fun _ => ages_useValue V key use) ?_) (fun _ _ _ h => h.from_same rfl)
    (fun _ h => h)
  · exact Act.preserves_ite (ages_useValue V key use) (Act.preserves_pure _)
  · rw [pure_bind, bind_assoc]

theorem forget_ages {m : Run Store α} {reached : List Bytes} {made : Option Bytes}
    (h : Act.Sat m e s w (fun _ s' _ => Ages reached made s s') (fun _ => True)) :
    Act.Sat (forget m) e s w (fun _ s' _ => Ages reached made s s') (fun _ => True) := by
  unfold forget
  rw [Act.sat_bind]
  exact h

/-- An operation that changes no time. -/
theorem ages_of_preserves {m : Run Store α} (h : Act.Preserves ages m) :
    Act.Sat m e s w (fun _ s' _ => Ages [] none s s') (fun _ => True) :=
  Act.sat_mono (h e s w) (fun _ _ _ h => .same h) (fun _ h => h)

theorem ages_of_reads {m : Run Store α}
    (h : ∀ s w, Act.Sat m e s w (fun _ s' _ => s' = s) (fun _ => True)) :
    Act.Sat m e s w (fun _ s' _ => Ages [] none s s') (fun _ => True) := by
  refine Act.sat_mono (h s w) ?_ (fun _ h => h)
  rintro _ s' _ rfl
  exact .same rfl

theorem write_ages (V : Variant τ) (use : Run τ α) :
    Act.Sat (Store.write V key use) e s w (fun _ s' _ => Ages [key] none s s') (fun _ => True) :=
  find_then fun _ => Act.preserves_ite
    (Act.preserves_bind preserves_bumpDirty fun _ => ages_useValue V key use) (Act.preserves_pure _)

theorem existingMemory_ages (use : Run Memory α) :
    Act.Sat (Store.existingMemory key use) e s w (fun _ s' _ => Ages [key] none s s')
      (fun _ => True) :=
  find_then fun _ => Act.preserves_ite (ages_useValue .memory key use) (Act.preserves_pure _)

theorem pttlMs_ages : Act.Sat (Store.pttlMs key) e s w (fun _ s' _ => Ages [key] none s s')
    (fun _ => True) := by
  refine find_then fun r => ?_
  cases r with
  | none => exact Act.preserves_pure _
  | some entry =>
    dsimp only
    cases entry.expireAt with
    | none => exact Act.preserves_pure _
    | some deadline => exact Act.preserves_bind (fun _ _ _ => rfl) fun _ => Act.preserves_pure _

/-- A key that is looked up and then perhaps removed. -/
theorem find_and_remove {m : Option Entry → Run Store α}
    (hm : ∀ r, Act.Preserves ages (m r) ∨ ∃ g : Option Entry → Run Store α,
      m r = removeEntry key >>= g ∧ ∀ r, Act.Preserves ages (g r)) :
    Act.Sat (find key >>= m) e s w (fun _ s' _ => Ages [key] none s s') (fun _ => True) := by
  rw [Act.sat_bind]
  refine Act.sat_mono (find_ages key) ?_ (fun _ h => h)
  rintro r s₁ w₁ ⟨-, -, hages⟩
  have hlooked := Ages.looked hages
  rcases hm r with hsame | ⟨g, hremove, hg⟩
  · exact Act.sat_mono (hsame e s₁ w₁) (fun _ _ _ h => hlooked.then_same h) (fun _ h => h)
  · rw [hremove, Act.sat_bind]
    refine Act.sat_mono (removeEntry_ages key) ?_ (fun _ h => h)
    rintro removed s₂ w₂ ⟨-, -, hages₂⟩
    exact Act.sat_mono (hg removed e s₂ w₂) (fun _ _ _ h => (hlooked.dropped hages₂).then_same h)
      (fun _ h => h)

theorem del_ages : Act.Sat (Store.del key) e s w (fun _ s' _ => Ages [key] none s s')
    (fun _ => True) := by
  refine find_and_remove fun r => ?_
  cases r with
  | none => exact .inl (Act.preserves_pure _)
  | some _ =>
    exact .inr ⟨_, rfl, fun _ => Act.preserves_bind preserves_bumpDirty fun _ => Act.preserves_pure _⟩

theorem deleteIfEmpty_ages : Act.Sat (Store.deleteIfEmpty key) e s w
    (fun _ s' _ => Ages [key] none s s') (fun _ => True) := by
  refine find_and_remove fun r => ?_
  split
  · exact .inr ⟨_, rfl, fun _ => preserves_bumpDirty⟩
  · exact .inl (Act.preserves_pure _)

/-- A move or a clone of the entry just found carries its time along. -/
theorem Ages.carried {other : Bytes} (hhit : s.hits e w key = true) (h : Ages [key] none s s')
    {n : Nat} (hn : s'.stamps key = some n) {s'' : Store} (hclock : s'.clock ≤ s''.clock)
    (hother : s''.stamps other = some n) (hkey : other ≠ key → s''.stamps key = some n ∨
      s''.stamps key = none)
    (hothers : ∀ k, k ≠ key → k ≠ other → s''.stamps k = s'.stamps k ∨ s''.stamps k = none) :
    Ages (if s.hits e w key then [key, other] else [key]) none s s'' := by
  rw [hhit, if_pos rfl]
  obtain ⟨hlow, hhigh⟩ := h.hit rfl key List.mem_cons_self n hn
  refine ⟨h.clock.trans hclock, fun k hk => ?_, fun _ k hk m hm => ?_, fun _ h => (by cases h)⟩
  · rw [List.mem_cons, List.mem_singleton, not_or] at hk
    rcases hothers k hk.1 hk.2 with hsame | hnone
    · rw [hsame]
      exact h.others k (by simpa using hk.1)
    · exact .inr hnone
  · have hbounds : m = n → s.clock < m ∧ m ≤ s''.clock := fun hmn => by omega
    by_cases hko : k = other
    · subst hko
      rw [hother, Option.some.injEq] at hm
      exact hbounds hm.symm
    · rw [List.mem_cons, List.mem_singleton] at hk
      have hk : k = key := hk.resolve_right hko
      subst hk
      rcases hkey fun heq => hko heq.symm with hsame | hnone
      · rw [hsame, Option.some.injEq] at hm
        exact hbounds hm.symm
      · rw [hnone] at hm
        cases hm

theorem rename_ages (other : Bytes) : Act.Sat (Store.rename key other) e s w (fun _ s' _ =>
    Ages (if s.hits e w key then [key, other] else [key]) none s s') (fun _ => True) := by
  unfold Store.rename
  rw [Act.sat_bind]
  refine Act.sat_mono (find_ages key) ?_ (fun _ h => h)
  rintro r s₁ w₁ ⟨hr, hhit, hages⟩
  have hlooked := Ages.looked hages
  cases r with
  | none =>
    have hmiss : s.hits e w key = false := hhit.symm
    rw [hmiss, if_neg Bool.false_ne_true]
    exact hlooked
  | some entry =>
    have hhit : s.hits e w key = true := hhit.symm
    have hstamp : s₁.stamps key = some entry.access.accessedAt := by
      unfold stamps
      rw [← hr]
      rfl
    dsimp only
    by_cases hsame : key = other
    · subst hsame
      rw [if_pos rfl]
      exact hlooked.carried hhit hstamp le_rfl hstamp (fun h => absurd rfl h) fun _ _ _ => .inl rfl
    · rw [if_neg hsame, Act.sat_bind]
      refine Act.sat_mono (removeEntry_ages key) ?_ (fun _ h => h)
      rintro removed s₂ w₂ ⟨hremoved, -, hages₂⟩
      rw [← hr] at hremoved
      rw [hremoved, Act.sat_bind, Act.sat_expect_some, Act.sat_bind]
      refine Act.sat_mono (insertEntry_ages other entry) ?_ (fun _ h => h)
      intro _ s₃ w₃ hages₃
      obtain ⟨hclock₂, hstamps₂⟩ := Prod.mk.inj hages₂
      obtain ⟨hclock₃, hstamps₃⟩ := Prod.mk.inj hages₃
      have hclock₃' : s₃.clock = s₂.clock := hclock₃
      have hstamps₃' : s₃.stamps = Function.update s₂.stamps other (some entry.access.accessedAt) :=
        hstamps₃
      have hclock₂' : s₂.clock = s₁.clock := hclock₂
      have hstamps₂' : s₂.stamps = Function.update s₁.stamps key none := hstamps₂
      refine hlooked.carried hhit hstamp ?_ ?_ (fun hother => .inr ?_)
        fun k hk hko => .inl ?_
      · show s₁.clock ≤ s₃.clock
        omega
      · show s₃.stamps other = _
        rw [hstamps₃', Function.update_self]
      · show s₃.stamps key = none
        rw [hstamps₃', Function.update_of_ne (Ne.symm hother), hstamps₂', Function.update_self]
      · show s₃.stamps k = s₁.stamps k
        rw [hstamps₃', Function.update_of_ne hko, hstamps₂', Function.update_of_ne hk]

theorem Ages.trans {l l' : List Bytes} (h : Ages l none s s') {s'' : Store} (h' : Ages l' none s' s'') :
    Ages (l ++ l') none s s'' := by
  refine ⟨h.clock.trans h'.clock, fun k hk => ?_, fun _ k hk n hn => ?_, fun _ h => (by cases h)⟩
  · rw [List.mem_append, not_or] at hk
    rcases h'.others k hk.2 with hsame | hnone
    · rw [hsame]
      exact h.others k hk.1
    · exact .inr hnone
  · have hclock := h.clock
    have hclock' := h'.clock
    by_cases hk' : k ∈ l'
    · have := h'.hit rfl k hk' n hn
      omega
    · rcases h'.others k hk' with hsame | hnone
      · rw [hsame] at hn
        have := h.hit rfl k ((List.mem_append.mp hk).resolve_right hk') n hn
        omega
      · rw [hnone] at hn
        cases hn

/-- The clone of an entry is put at another key with the time of the original. -/
theorem copyEntry_ages {other : Bytes} (hhit : s.hits e w key = true) (h : Ages [key] none s s')
    {w' : World} : Act.Sat (copyEntry key other) e s' w' (fun _ s'' _ =>
      Ages (if s.hits e w key then [key, other] else [key]) none s s'') (fun _ => True) := by
  unfold copyEntry
  rw [Act.sat_bind, Act.sat_get]
  cases hentry : s'.map.lookup key with
  | none => trivial
  | some entry =>
    rw [Act.sat_bind, Act.sat_expect_some, Act.sat_bind]
    refine Act.sat_mono (ages_cloneValue entry.value e s' w') ?_ (fun _ h => h)
    intro value s₁ w₁ hages₁
    rw [Act.sat_bind]
    refine Act.sat_mono (insertEntry_ages other { entry with value := value }) ?_ (fun _ h => h)
    intro _ s₂ w₂ hages₂
    have hstamp : s'.stamps key = some entry.access.accessedAt := congrArg (Option.map _) hentry
    obtain ⟨hclock₁, hstamps₁⟩ := Prod.mk.inj hages₁
    obtain ⟨hclock₂, hstamps₂⟩ := Prod.mk.inj hages₂
    have hclock : s₂.clock = s'.clock := Eq.trans hclock₂ hclock₁
    have hstamps : s₂.stamps = Function.update s'.stamps other (some entry.access.accessedAt) := by
      have h₁ : s₁.stamps = s'.stamps := hstamps₁
      have h₂ : s₂.stamps = Function.update s₁.stamps other (some entry.access.accessedAt) := hstamps₂
      rw [h₂, h₁]
    refine h.carried hhit hstamp ?_ ?_ (fun hother => .inl ?_)
      fun k hk hko => .inl ?_
    · exact hclock.ge
    · show s₂.stamps other = _
      rw [hstamps, Function.update_self]
    · show s₂.stamps key = _
      rw [hstamps, Function.update_of_ne (Ne.symm hother), hstamp]
    · show s₂.stamps k = s'.stamps k
      rw [hstamps, Function.update_of_ne hko]

theorem copy_ages (other : Bytes) (replace : Bool) :
    Act.Sat (Store.copy key other replace) e s w (fun _ s' _ =>
      Ages (if s.hits e w key then [key, other] else [key]) none s s') (fun _ => True) := by
  unfold Store.copy
  rw [Act.sat_bind]
  refine Act.sat_mono (find_ages key) ?_ (fun _ h => h)
  rintro r s₁ w₁ ⟨hr, hhit, hages⟩
  have hlooked := Ages.looked hages
  cases r with
  | none =>
    have hmiss : s.hits e w key = false := hhit.symm
    rw [hmiss, if_neg Bool.false_ne_true]
    exact hlooked
  | some entry =>
    have hhit : s.hits e w key = true := hhit.symm
    dsimp only
    cases replace with
    | true => exact copyEntry_ages hhit hlooked
    | false =>
      rw [if_neg Bool.false_ne_true, Act.sat_bind]
      unfold Store.hasKey
      rw [Act.sat_bind]
      refine Act.sat_mono (find_ages other) ?_ (fun _ h => h)
      rintro taken s₂ w₂ ⟨-, hhit₂, hages₂⟩
      cases taken with
      | some _ =>
        show Ages (if s.hits e w key then [key, other] else [key]) none s s₂
        rw [hhit, if_pos rfl]
        exact hlooked.trans (Ages.looked hages₂)
      | none =>
        have hmiss : s₁.hits e w₁ other = false := hhit₂.symm
        rw [hmiss, if_neg Bool.false_ne_true] at hages₂
        obtain ⟨hclock₂, hstamps₂⟩ := Prod.mk.inj hages₂
        have hstamps₂' : s₂.stamps = Function.update s₁.stamps other none := hstamps₂
        have hgone : Ages [] none s₁ s₂ := by
          refine .gone hclock₂ fun k => ?_
          rw [hstamps₂']
          by_cases hk : k = other
          · rw [hk, Function.update_self]
            exact .inr rfl
          · rw [Function.update_of_ne hk]
            exact .inl rfl
        have hlooked₂ : Ages [key] none s s₂ := by simpa using hlooked.trans hgone
        exact copyEntry_ages hhit hlooked₂

theorem removals_ages (keys : List Bytes) : ∀ (s : Store) (w : World),
    Act.Sat (Act.forList (fun key => do
      let _ ← removeEntry key
      Act.modify fun s => { s with dirty := s.dirty + 1, expired := s.expired + 1 }) keys) e s w
      (fun _ s' _ => Ages [] none s s') (fun _ => True) := by
  induction keys with
  | nil => exact fun _ _ => .same rfl
  | cons key keys ih =>
    intro s w
    unfold Act.forList
    rw [Act.sat_bind, Act.sat_bind]
    refine Act.sat_mono (removeEntry_ages key) ?_ (fun _ h => h)
    rintro _ s₁ w₁ ⟨-, -, hages⟩
    rw [Act.sat_modify]
    refine Act.sat_mono (ih _ w₁) (fun _ s₂ _ h => Ages.trans (l := []) (.gone ?_ ?_) h) (fun _ h => h)
    · exact (Prod.mk.inj hages).1
    · intro k
      have hstamps : s₁.stamps = Function.update s.stamps key none := (Prod.mk.inj hages).2
      show s₁.stamps k = s.stamps k ∨ s₁.stamps k = none
      rw [hstamps]
      by_cases hk : k = key
      · rw [hk, Function.update_self]
        exact .inr rfl
      · rw [Function.update_of_ne hk]
        exact .inl rfl

theorem evict_ages : Act.Sat (Store.evict key) e s w (fun _ s' _ => Ages [] none s s')
    (fun _ => True) := by
  unfold Store.evict
  rw [Act.sat_bind]
  refine Act.sat_mono (removeEntry_ages key) ?_ (fun _ h => h)
  rintro r s₁ w₁ ⟨-, -, hages⟩
  have hgone : Ages [] none s s₁ := by
    refine .gone (Prod.mk.inj hages).1 fun k => ?_
    have hstamps : s₁.stamps = Function.update s.stamps key none := (Prod.mk.inj hages).2
    rw [hstamps]
    by_cases hk : k = key
    · rw [hk, Function.update_self]
      exact .inr rfl
    · rw [Function.update_of_ne hk]
      exact .inl rfl
  cases r with
  | none => exact hgone
  | some _ => exact hgone.then_same rfl

/-- **What one operation does to the times.** -/
theorem exec_ages (op : StoreOp) (e : Env) (s : Store) (w : World) : Act.Sat op.exec e s w
    (fun _ s' _ => Ages (op.reached e w s) (op.made e w s) s s') (fun _ => True) := by
  cases op with
  | setString key value =>
    exact Act.sat_mono (insertFresh_ages (s := bumpDirty s) (.str value) none)
      (fun _ _ _ h => (Ages.fresh h).from_same rfl) (fun _ h => h)
  | updateString key value =>
    show Act.Sat (Store.updateString key value) e s w _ _
    unfold Store.updateString
    rw [Act.sat_bind, Act.sat_modify]
    refine Act.sat_mono (find_or_make (s := bumpDirty s) (.str value) (fun entry => ?_)
      (Act.preserves_pure ()) (fun _ => Act.preserves_pure ()) ?_) (fun _ _ _ h => h.from_same rfl)
      (fun _ h => h)
    · exact ages_adjust fun _ => rfl
    · rw [pure_bind, bind_pure]
  | del key => exact forget_ages del_ages
  | setExpireAt key deadline =>
    refine forget_ages (find_then fun r => ?_)
    cases r with
    | none => exact Act.preserves_pure _
    | some _ =>
      exact Act.preserves_bind (ages_adjust fun _ => rfl) fun _ =>
        Act.preserves_bind (ages_syncVolatile key) fun _ =>
          Act.preserves_bind preserves_bumpDirty fun _ => Act.preserves_pure _
  | rename key newKey => exact forget_ages (rename_ages newKey)
  | copy key dest replace => exact forget_ages (copy_ages dest replace)
  | flush => exact forget_ages (Ages.gone rfl fun _ => .inr rfl)
  | getOrCreateList key use => exact forget_ages (getOrCreate_ages .list _)
  | readList key => exact forget_ages (find_then fun _ => Act.preserves_pure _)
  | writeList key use => exact forget_ages (write_ages .list _)
  | getOrCreateHash key use => exact forget_ages (getOrCreate_ages .hash _)
  | readHash key => exact forget_ages (find_then fun _ => Act.preserves_pure _)
  | writeHash key use => exact forget_ages (write_ages .hash _)
  | getOrCreateSet key use => exact forget_ages (getOrCreate_ages .set _)
  | readSet key => exact forget_ages (find_then fun _ => Act.preserves_pure _)
  | writeSet key use => exact forget_ages (write_ages .set _)
  | getOrCreateZset key use => exact forget_ages (getOrCreate_ages .zset _)
  | readZset key => exact forget_ages (find_then fun _ => Act.preserves_pure _)
  | writeZset key use => exact forget_ages (write_ages .zset _)
  | deleteIfEmpty key => exact deleteIfEmpty_ages
  | createMemory key memory =>
    refine forget_ages ?_
    unfold Store.createMemory Store.hasKey
    rw [bind_assoc]
    refine find_or_make (.memory memory) (fun entry => Act.preserves_pure _)
      preserves_bumpDirty (fun _ => Act.preserves_pure true) ?_
    simp only [pure_bind, bind_assoc]
    rfl
  | existingMemory key use => exact forget_ages (existingMemory_ages _)
  | evict key => exact forget_ages evict_ages
  | sweepExpired =>
    show Act.Sat Store.sweepExpired e s w _ _
    unfold Store.sweepExpired
    simp only [Act.sat_bind, sat_now, Act.sat_get]
    exact removals_ages _ s _
  | hasKey key => exact forget_ages (find_then fun _ => Act.preserves_pure _)
  | typeOf key => exact forget_ages (find_then fun _ => Act.preserves_pure _)
  | peekType key =>
    refine forget_ages ?_
    show Act.Sat (Store.peekType key) e s w _ _
    unfold Store.peekType
    rw [Act.sat_bind]
    refine Act.sat_mono (expireIfDue_ages key) ?_ (fun _ h => h)
    rintro _ s' _ ⟨hclock, hothers, hkey⟩
    refine Ages.gone hclock fun k => ?_
    by_cases hk : k = key
    · rw [hk]
      exact hkey
    · exact .inl (hothers k hk)
  | hasExpiry key => exact forget_ages (find_then fun _ => Act.preserves_pure _)
  | ttl key =>
    refine forget_ages ?_
    show Act.Sat (Store.ttl key) e s w _ _
    unfold Store.ttl
    rw [Act.sat_bind]
    exact pttlMs_ages
  | pttlMs key => exact forget_ages pttlMs_ages
  | getString key => exact forget_ages (find_then fun _ => Act.preserves_pure _)
  | randomKey =>
    refine forget_ages (ages_of_reads fun s w => ?_)
    unfold Store.randomKey
    rw [Act.sat_bind, sat_now]
    exact Act.sat_mono (randomKeyLoop_reads _ _ _ _) (fun _ _ _ h => h) (fun _ h => h.elim)
  | size => exact forget_ages (ages_of_preserves fun _ _ _ => rfl)
  | volatileSize => exact forget_ages (ages_of_preserves fun _ _ _ => rfl)
  | typeBreakdown => exact forget_ages (ages_of_preserves fun _ _ _ => rfl)
  | sample volatileOnly count =>
    refine forget_ages (ages_of_reads fun s w => ?_)
    exact Act.sat_mono (sample_reads _ _ _ _) (fun _ _ _ h => h) (fun _ _ => trivial)
  | foreachKey => exact forget_ages (ages_of_preserves fun _ _ _ => rfl)
  | foreachEntry => exact forget_ages (ages_of_preserves fun _ _ _ => rfl)
  | memoryKeys => exact forget_ages (ages_of_preserves fun _ _ _ => rfl)
  | scan startCursor minCount =>
    refine forget_ages (ages_of_reads fun s w => ?_)
    unfold Store.scan
    simp
  | markDirty => exact Ages.same rfl
  | resetDirty => exact Ages.same rfl

/-! ## Victims -/

theorem sampleLoop_stamps (pool : List Bytes) (t : SystemTime) (m : Nat) :
    ∀ (n : Nat) (s : Store) (w : World),
      Act.Sat (sampleLoop pool t m n) e s w
        (fun cs s' _ => s' = s ∧ ∀ c ∈ cs, s.stamps c.key = some c.lastAccess) (fun _ => True)
  | 0, _, _ => ⟨rfl, fun _ hc => by cases hc⟩
  | n + 1, s, w => by
    unfold sampleLoop
    simp only [Act.sat_bind]
    refine Act.sat_mono (below_spec _) ?_ (fun _ _ => trivial)
    rintro i s' w₁ ⟨rfl, -, -⟩
    cases pool[i]? with
    | none => trivial
    | some key =>
      simp only [Act.sat_bind, Act.sat_get]
      refine Act.sat_mono (sampleLoop_stamps pool t m n s' w₁) ?_ (fun _ h => h)
      rintro rest s'' w₂ ⟨rfl, hrest⟩
      rw [Act.sat_pure]
      refine ⟨rfl, fun c hc => ?_⟩
      cases hentry : s''.map.lookup key with
      | none =>
        rw [hentry] at hc
        exact hrest c hc
      | some entry =>
        rw [hentry] at hc
        simp only at hc
        split at hc
        · rcases List.mem_cons.mp hc with rfl | hc
          · exact congrArg (Option.map _) hentry
          · exact hrest c hc
        · exact hrest c hc

/-- A candidate carries the time of its key. -/
theorem sample_stamps (volatileOnly : Bool) (count : Nat) (s : Store) (w : World) :
    Act.Sat (sample volatileOnly count) e s w
      (fun cs _ _ => ∀ c ∈ cs, s.stamps c.key = some c.lastAccess) (fun _ => True) := by
  unfold sample
  simp only [Act.sat_bind, Act.sat_get, Act.sat_ite, Act.sat_pure, sat_now]
  refine ⟨fun _ c hc => (by cases hc), fun _ => ?_⟩
  refine Act.sat_mono minute_spec ?_ (fun _ _ => trivial)
  rintro m s' w₁ ⟨rfl, -⟩
  refine ⟨fun _ => trivial, fun _ => ?_⟩
  exact Act.sat_mono (sampleLoop_stamps _ _ m count s' w₁) (fun _ _ _ h => h.2) (fun _ h => h)

theorem minBy_least {cs : List Candidate} {v : Candidate}
    (h : App.minBy (fun a b => decide (a.lastAccess < b.lastAccess)) cs = some v) :
    ∀ c ∈ cs, v.lastAccess ≤ c.lastAccess := by
  cases cs with
  | nil => cases h
  | cons first rest =>
    have hfold : ∀ (rest : List Candidate) (best : Candidate), ∀ c ∈ best :: rest,
        (rest.foldl (fun best c => if decide (c.lastAccess < best.lastAccess) then c else best)
          best).lastAccess ≤ c.lastAccess := by
      intro rest
      induction rest with
      | nil =>
        intro best c hc
        rw [List.mem_singleton.mp hc]
        rfl
      | cons next rest ih =>
        intro best c hc
        rw [List.foldl_cons]
        by_cases hlt : next.lastAccess < best.lastAccess
        · rw [if_pos (decide_eq_true hlt)]
          rcases List.mem_cons.mp hc with rfl | hc
          · exact (ih next next List.mem_cons_self).trans hlt.le
          · exact ih next c hc
        · rw [if_neg (by simpa using hlt)]
          have hbest := ih best best List.mem_cons_self
          rcases List.mem_cons.mp hc with rfl | hc
          · exact hbest
          · rcases List.mem_cons.mp hc with rfl | hc
            · exact hbest.trans (not_lt.mp hlt)
            · exact ih best c (List.mem_cons_of_mem _ hc)
    unfold App.minBy at h
    rw [Option.some.injEq] at h
    rw [← h]
    exact hfold rest first

end operations

/-! ## Runs -/

/-- A store with the number of operations behind it and, for each key, the last of them that read,
wrote or created its value. -/
structure Aged where
  store : Store
  step : Nat := 0
  last : Bytes → Nat := fun _ => 0

namespace Aged

open Store

variable {e : Env} {w : World} {g g' : Aged} {op : StoreOp}

/-- What an operation leaves, on `store'`. -/
def after (g : Aged) (reached : List Bytes) (store' : Store) : Aged where
  store := store'
  step := g.step + 1
  last k := if k ∈ reached then g.step + 1 else g.last k

/-- Run an operation. -/
def exec (op : StoreOp) : Run Aged Unit := fun e g w =>
  match op.exec e g.store w with
  | .done _ store' w' => .done () (g.after (op.reached e w g.store) store') w'
  | .panicked p => .panicked p

/-- **Exact recency.**  The times order the keys as their last accesses do, and of any sample the
`lru` policies take the key whose last access is oldest. -/
structure Exact (g : Aged) : Prop where
  order : ∀ a b m n, g.store.stamps a = some m → g.store.stamps b = some n →
    g.last a < g.last b → m < n
  victim : ∀ volatileOnly count e w, Act.Sat (Store.sample volatileOnly count) e g.store w
    (fun cs _ _ => ∀ policy, policy = .allkeysLru ∨ policy = .volatileLru →
      ∀ v, App.choose policy cs = some v → v ∈ cs ∧ ∀ c ∈ cs, g.last v.key ≤ g.last c.key)
    (fun _ => True)

/-- A key is made only when no other key carries the time the clock shows. -/
def Ahead (e : Env) (w : World) (g : Aged) (op : StoreOp) : Prop :=
  ∀ key, op.made e w g.store = some key → ∀ k, k ≠ key → g.store.stamps k ≠ some g.store.clock

/-- Every state of a run is exact. -/
def ExactAlong (e : Env) : List StoreOp → Aged → World → Prop
  | [], g, _ => g.Exact
  | op :: ops, g, w => g.Exact ∧
    Act.Sat (exec op) e g w (fun _ g' w' => ExactAlong e ops g' w') (fun _ => True)

/-- Every step of a run makes keys ahead of the others. -/
def AheadAlong (e : Env) : List StoreOp → Aged → World → Prop
  | [], _, _ => True
  | op :: ops, g, w => Act.Sat (exec op) e g w
      (fun _ g' w' => g.Ahead e w op ∧ AheadAlong e ops g' w') (fun _ => True)

theorem sat_exec {Q : Aged → World → Prop} (h : Act.Sat op.exec e g.store w
    (fun _ store' w' => Q (g.after (op.reached e w g.store) store') w') (fun _ => True)) :
    Act.Sat (exec op) e g w (fun _ g' w' => Q g' w') (fun _ => True) := by
  unfold Act.Sat exec
  unfold Act.Sat at h
  cases hrun : op.exec e g.store w with
  | done a store' w' =>
    rw [hrun] at h
    exact h
  | panicked p => trivial

/-- No time is later than the clock, no access later than the last operation. -/
structure Bounded (g : Aged) : Prop where
  clock : ∀ k n, g.store.stamps k = some n → n ≤ g.store.clock
  last : ∀ k, g.last k ≤ g.step

/-- The victims follow from the order. -/
theorem Exact.of_order (h : ∀ a b m n, g.store.stamps a = some m → g.store.stamps b = some n →
    g.last a < g.last b → m < n) : g.Exact := by
  refine ⟨h, fun volatileOnly count e w => ?_⟩
  refine Act.sat_mono (sample_stamps volatileOnly count g.store w) ?_ (fun _ h => h)
  intro cs _ _ hstamps policy hpolicy v hv
  have hmem : v ∈ cs := mem_of_choose hv
  have hleast : ∀ c ∈ cs, v.lastAccess ≤ c.lastAccess := by
    rcases hpolicy with rfl | rfl
    · exact minBy_least hv
    · exact minBy_least hv
  refine ⟨hmem, fun c hc => ?_⟩
  by_contra hlt
  have hbefore := h c.key v.key _ _ (hstamps c hc) (hstamps v hmem) (not_le.mp hlt)
  exact absurd (hleast c hc) (not_le.mpr hbefore)

theorem last_after_of_mem {reached : List Bytes} {store' : Store} {k : Bytes} (hk : k ∈ reached) :
    (g.after reached store').last k = g.step + 1 := if_pos hk

theorem last_after_of_notMem {reached : List Bytes} {store' : Store} {k : Bytes} (hk : k ∉ reached) :
    (g.after reached store').last k = g.last k := if_neg hk

theorem Bounded.after (h : g.Bounded) {reached : List Bytes} {made : Option Bytes} {store' : Store}
    (hages : Ages reached made g.store store') : (g.after reached store').Bounded := by
  refine ⟨fun k n hn => ?_, fun k => ?_⟩
  · have hn : store'.stamps k = some n := hn
    show n ≤ store'.clock
    by_cases hk : k ∈ reached
    · cases made with
      | none => exact (hages.hit rfl k hk n hn).2
      | some key =>
        obtain ⟨rfl, hclock, hstamps⟩ := hages.made key rfl
        rw [List.mem_singleton] at hk
        subst hk
        have hnow : some g.store.clock = some n := by
          rw [← hn]
          exact ((congrFun hstamps k).trans (Function.update_self ..)).symm
        rw [Option.some.injEq] at hnow
        omega
    · rcases hages.others k hk with hsame | hnone
      · rw [hsame] at hn
        exact (h.clock k n hn).trans hages.clock
      · rw [hnone] at hn
        cases hn
  · show (g.after reached store').last k ≤ g.step + 1
    by_cases hk : k ∈ reached
    · rw [last_after_of_mem hk]
    · rw [last_after_of_notMem hk]
      exact (h.last k).trans (Nat.le_succ _)

/-- **Step lemma.**  From exact recency, an operation keeps it if and only if what it makes is ahead
of every other key. -/
theorem exact_after_iff (hbounded : g.Bounded) (hexact : g.Exact) {store' : Store}
    (hages : Ages (op.reached e w g.store) (op.made e w g.store) g.store store') :
    (g.after (op.reached e w g.store) store').Exact ↔ g.Ahead e w op := by
  constructor
  · intro h key hmade k hk hstamp
    obtain ⟨hreached, -, hstamps⟩ := hages.made key hmade
    have hnot : k ∉ op.reached e w g.store := by
      rw [hreached, List.mem_singleton]
      exact hk
    have hearlier : (g.after (op.reached e w g.store) store').last k <
        (g.after (op.reached e w g.store) store').last key := by
      rw [last_after_of_notMem hnot, last_after_of_mem (by rw [hreached]; exact List.mem_cons_self)]
      exact Nat.lt_succ_of_le (hbounded.last k)
    have hkept : store'.stamps k = some g.store.clock := by
      rw [hstamps, Function.update_of_ne hk, hstamp]
    have hfresh : store'.stamps key = some g.store.clock := by
      rw [hstamps, Function.update_self]
    exact absurd (h.order k key _ _ hkept hfresh hearlier) (lt_irrefl _)
  · intro hahead
    refine .of_order fun a b m n hm hn hlast => ?_
    have hm : store'.stamps a = some m := hm
    have hn : store'.stamps b = some n := hn
    -- whatever `a` carries it carried before: an access by this operation would be the last of all
    have ha : a ∉ op.reached e w g.store := by
      intro ha
      rw [last_after_of_mem ha] at hlast
      have hbound := (hbounded.after hages).last b
      exact absurd hlast (not_lt.mpr hbound)
    have hsame : g.store.stamps a = some m := by
      rcases hages.others a ha with hsame | hnone
      · rwa [hsame] at hm
      · rw [hnone] at hm
        cases hm
    have hm' : m ≤ g.store.clock := hbounded.clock a m hsame
    by_cases hb : b ∈ op.reached e w g.store
    · cases hmade : op.made e w g.store with
      | none => exact lt_of_le_of_lt hm' (hages.hit hmade b hb n hn).1
      | some key =>
        obtain ⟨hreached, -, hstamps⟩ := hages.made key hmade
        rw [hreached, List.mem_singleton] at ha hb
        rw [hb, hstamps, Function.update_self, Option.some.injEq] at hn
        have hne : m ≠ g.store.clock := by
          intro heq
          rw [heq] at hsame
          exact hahead key hmade a ha hsame
        omega
    · rw [last_after_of_notMem ha, last_after_of_notMem hb] at hlast
      rcases hages.others b hb with hsame' | hnone
      · rw [hsame'] at hn
        exact hexact.order a b m n hsame hn hlast
      · rw [hnone] at hn
        cases hn

theorem exactAlong_iff_of (e : Env) : ∀ (ops : List StoreOp) (g : Aged) (w : World),
    g.Bounded → g.Exact → (ExactAlong e ops g w ↔ AheadAlong e ops g w)
  | [], _, _, _, hexact => ⟨fun _ => trivial, fun _ => hexact⟩
  | op :: ops, g, w, hbounded, hexact => by
    have hstep := exec_ages op e g.store w
    unfold ExactAlong AheadAlong
    rw [and_iff_right hexact]
    unfold Act.Sat exec
    unfold Act.Sat at hstep
    cases hrun : op.exec e g.store w with
    | panicked p => exact Iff.rfl
    | done a store' w' =>
      rw [hrun] at hstep
      have hiff := exact_after_iff hbounded hexact hstep
      constructor
      · intro halong
        have hhere : (g.after (op.reached e w g.store) store').Exact := by
          cases ops with
          | nil => exact halong
          | cons _ _ => exact halong.1
        exact ⟨hiff.mp hhere, (exactAlong_iff_of e ops _ w' (hbounded.after hstep) hhere).mp halong⟩
      · rintro ⟨hahead, halong⟩
        exact (exactAlong_iff_of e ops _ w' (hbounded.after hstep) (hiff.mpr hahead)).mpr halong

/-- **When recency is exact.**  Over any run of store operations from an empty store, with any
readings of the clock and any draws, the times order the keys by their last accesses in every state
if and only if each key that a SET writes or a write creates is made while no other key carries the
time the clock shows: `fresh` stamps with the clock as it stands, and only a lookup moves it on. -/
theorem exactAlong_iff (e : Env) (started : Instant) (ops : List StoreOp) (w : World) :
    ExactAlong e ops { store := { started := started } } w ↔
      AheadAlong e ops { store := { started := started } } w := by
  refine exactAlong_iff_of e ops _ w ⟨fun k n hn => ?_, fun _ => le_rfl⟩
    (.of_order fun a _ _ _ ha => ?_)
  · cases hn
  · cases ha

/-- Two keys set one after the other carry the same time. -/
theorem not_exactAlong_set_set : ¬ ∀ (e : Env) (started : Instant) (ops : List StoreOp) (w : World),
    ExactAlong e ops { store := { started := started } } w := by
  intro h
  have hfirst := (h (stillEnv 0) 0 [.setString [97] [], .setString [98] []] {}).2
  have hexact : Act.Sat (exec (.setString [97] []) >>= fun _ => exec (.setString [98] []))
      (stillEnv 0) { store := { started := 0 } } {} (fun _ g _ => g.Exact) (fun _ => True) := by
    rw [Act.sat_bind]
    exact Act.sat_mono hfirst
      (fun _ _ _ h => Act.sat_mono h.2 (fun _ _ _ h => h) (fun _ h => h)) (fun _ h => h)
  have htied : Act.Sat (exec (.setString [97] []) >>= fun _ => exec (.setString [98] []))
      (stillEnv 0) { store := { started := 0 } } {} (fun _ g _ => g.store.stamps [97] = some 0 ∧
        g.store.stamps [98] = some 0 ∧ g.last [97] < g.last [98]) (fun _ => False) := by
    decide +kernel
  refine Act.not_sat_false _ (Act.sat_mono (Act.sat_and hexact htied) ?_ (fun _ h => h.2))
  rintro _ g _ ⟨hexact, ha, hb, hlast⟩
  exact absurd (hexact.order _ _ _ _ ha hb hlast) (lt_irrefl 0)

end Aged

end Klyro
