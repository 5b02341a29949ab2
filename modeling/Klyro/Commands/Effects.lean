import Klyro.Commands.Basic
import Klyro.Store.Spec

/-!
# What a handler may do to the keyspace

The clock may move while a command runs, so a key nobody writes either stays as it is or is
dropped by a lookup that found it due.

* `Moves e W` — between two states only keys in `W` are written; `Quiet` is `Moves` without any.
* `Looks` — a computation that writes nothing.
* `Does strict known W mute` — a computation that writes keys in `W` only, and nothing at all when
  it ends with a `mute` result or stops early; early stops are error replies, and when it is
  `strict` no `expect` fails.  `known` are the types the keys have been checked for.
* `looks_bind`, `does_bind`, `does_checkType` — the rules a handler is read with.
-/

set_option autoImplicit false

namespace Klyro

open Keyspace

/-! ## Changes of the keyspace -/

/-- What becomes of a key that is not written: nothing, or a reading of the clock found it due. -/
def Kept (e : Env) (w w' : World) (x x' : Option (Value × Option SystemTime)) : Prop :=
  x' = x ∨ x' = none ∧ ∃ i, w.ticks ≤ i ∧ i < w'.ticks ∧ due (e.clock i) x = true

/-- No collection is stored without an element. -/
def NonEmpty (s : Store) : Prop := ∀ k x d, s.view k = some (x, d) → x.isEmptyCollection = false

/-- From `s` to `s'` only the keys in `W` are written. -/
structure Moves (e : Env) (W : Bytes → Prop) (s : Store) (w : World) (s' : Store) (w' : World) :
    Prop where
  ticks : w.ticks ≤ w'.ticks
  kept : ∀ k, ¬ W k → Kept e w w' (s.view k) (s'.view k)
  indexed : s.Indexed → s'.Indexed
  nonEmpty : NonEmpty s → NonEmpty s'

/-- Nothing is written. -/
abbrev Quiet (e : Env) : Store → World → Store → World → Prop := Moves e fun _ => False

section changes

variable {e : Env} {W : Bytes → Prop} {s s' s'' : Store} {w w' w'' : World}
  {x x' x'' : Option (Value × Option SystemTime)}

theorem Kept.trans (h : Kept e w w' x x') (h' : Kept e w' w'' x' x'') (hw : w.ticks ≤ w'.ticks)
    (hw' : w'.ticks ≤ w''.ticks) : Kept e w w'' x x'' := by
  rcases h with rfl | ⟨rfl, i, hi, hi', hdue⟩
  · rcases h' with rfl | ⟨rfl, i, hi, hi', hdue⟩
    · exact .inl rfl
    · exact .inr ⟨rfl, i, by omega, hi', hdue⟩
  · rcases h' with rfl | ⟨rfl, _⟩
    · exact .inr ⟨rfl, i, hi, by omega, hdue⟩
    · exact .inr ⟨rfl, i, hi, by omega, hdue⟩

theorem Moves.refl : Moves e W s w s w :=
  ⟨le_rfl, fun _ _ => .inl rfl, id, id⟩

theorem Moves.trans (h : Moves e W s w s' w') (h' : Moves e W s' w' s'' w'') :
    Moves e W s w s'' w'' where
  ticks := h.ticks.trans h'.ticks
  kept := fun k hk => (h.kept k hk).trans (h'.kept k hk) h.ticks h'.ticks
  indexed := fun hi => h'.indexed (h.indexed hi)
  nonEmpty := fun hn => h'.nonEmpty (h.nonEmpty hn)

theorem Moves.mono {W' : Bytes → Prop} (h : Moves e W s w s' w') (hW : ∀ k, W k → W' k) :
    Moves e W' s w s' w' :=
  ⟨h.ticks, fun k hk => h.kept k fun hk' => hk (hW k hk'), h.indexed, h.nonEmpty⟩

theorem Moves.of_quiet (h : Quiet e s w s' w') : Moves e W s w s' w' := h.mono fun _ h => h.elim

theorem Kept.absorb (h : Kept e w w' x x') (h' : Kept e w w' x' x'') : Kept e w w' x x'' := by
  rcases h with rfl | ⟨rfl, hdue⟩
  · exact h'
  · rcases h' with rfl | ⟨rfl, _⟩
    · exact .inr ⟨rfl, hdue⟩
    · exact .inr ⟨rfl, hdue⟩

theorem kept_expire {i : Nat} {key : Bytes} (hi : w.ticks ≤ i) (hi' : i < w'.ticks) (K : Keyspace)
    (k : Bytes) : Kept e w w' (K k) (K.expire (e.clock i) key k) := by
  by_cases hk : k = key
  · subst hk
    rw [expire_self, liveAt]
    cases hd : due (e.clock i) (K k) with
    | false => exact .inl rfl
    | true => exact .inr ⟨rfl, i, hi, hi', hd⟩
  · exact .inl (expire_of_ne hk)

/-- No key is written. -/
theorem Moves.of_kept (hw : w.ticks ≤ w'.ticks) (h : ∀ k, Kept e w w' (s.view k) (s'.view k))
    (hidx : s.Indexed → s'.Indexed) : Moves e W s w s' w' := by
  refine ⟨hw, fun k _ => h k, hidx, fun hn k x d hx => ?_⟩
  rcases h k with hk | ⟨hk, -⟩
  · exact hn k x d (hk ▸ hx)
  · rw [hk] at hx
    cases hx

/-- A lookup of `key` writes nothing. -/
theorem Moves.of_expire {key : Bytes} {n : Nat} (hw : Store.Later (n + 1) w w')
    (hview : s'.view = s.view.expire (e.clock w.ticks) key) (hidx : s.Indexed → s'.Indexed) :
    Moves e W s w s' w' := by
  refine .of_kept (by rw [hw.ticks]; omega) (fun k => ?_) hidx
  rw [hview]
  exact kept_expire le_rfl (by rw [hw.ticks]; omega) s.view k

/-- Only `key` is given another content, which is no empty collection. -/
theorem Moves.of_update {key : Bytes} {n : Nat} (hw : Store.Later n w w') (hkey : W key)
    (hview : s'.view = Function.update s.view key x) (hidx : s.Indexed → s'.Indexed)
    (hx : NonEmpty s → ∀ v d, x = some (v, d) → v.isEmptyCollection = false) :
    Moves e W s w s' w' := by
  refine ⟨by rw [hw.ticks]; omega, fun k hk => .inl ?_, hidx, fun hn k v d hv => ?_⟩
  · rw [hview, Function.update_of_ne]
    rintro rfl
    exact hk hkey
  · rw [hview] at hv
    by_cases hk : k = key
    · subst hk
      rw [Function.update_self] at hv
      exact hx hn v d hv
    · rw [Function.update_of_ne hk] at hv
      exact hn k v d hv

theorem nonEmpty_liveAt {t : SystemTime} {key : Bytes} (hn : NonEmpty s) {v : Value}
    {d : Option SystemTime} (h : s.view.liveAt t key = some (v, d)) : v.isEmptyCollection = false := by
  unfold liveAt at h
  split at h
  · cases h
  · exact hn key v d h

end changes

/-! ## Judgements -/

section judgements

variable {α β : Type}

/-- A panic that is not a failed `expect`. -/
def NoExpect (p : Panic) : Prop := ∀ message, p ≠ .expect message

theorem NoExpect.of_outOfRange {s : Store} {p : Panic} (h : Store.OutOfRange s p) : NoExpect p := by
  intro message hp
  rw [h.1] at hp
  cases hp

/-- The panics of a computation; of a `strict` one no failed `expect`. -/
def Allowed (strict : Bool) (p : Panic) : Prop := strict = true → NoExpect p

theorem NoExpect.allowed {strict : Bool} {p : Panic} (h : NoExpect p) : Allowed strict p := fun _ => h

/-- A store operation that writes nothing. -/
def Reads (m : Run Store α) : Prop := ∀ (e : Env) (s : Store) (w : World),
  Act.Sat m e s w (fun _ s' w' => Quiet e s w s' w') NoExpect

/-- A part of a handler that writes nothing. -/
def Looks (m : Cmd α) : Prop := ∀ (e : Env) (s : Store) (w : World),
  Act.SatE m e s w (fun _ s' w' => Quiet e s w s' w')
    (fun r s' w' => r.isError = true ∧ Quiet e s w s' w') NoExpect

/-- The types the keys were checked for: each key is absent or of its type. -/
def Typed (known : List (Bytes × StoreType)) (s : Store) : Prop :=
  ∀ p ∈ known, ∀ x d, s.view p.1 = some (x, d) → x.typeOf = p.2

/-- A store operation that writes keys in `W` only. -/
def Writes (strict : Bool) (known : List (Bytes × StoreType)) (W : Bytes → Prop) (m : Run Store α) :
    Prop :=
  ∀ (e : Env) (s : Store) (w : World), Typed known s →
    Act.Sat m e s w (fun _ s' w' => Moves e W s w s' w') (Allowed strict)

/-- A handler that writes keys in `W` only, and nothing when it fails. -/
def Does (strict : Bool) (known : List (Bytes × StoreType)) (W : Bytes → Prop) (mute : α → Bool)
    (m : Cmd α) : Prop :=
  ∀ (e : Env) (s : Store) (w : World), Typed known s →
    Act.SatE m e s w
      (fun a s' w' => Moves e W s w s' w' ∧ (mute a = true → Quiet e s w s' w'))
      (fun r s' w' => r.isError = true ∧ Quiet e s w s' w') (Allowed strict)

/-- The end of a handler that has written: no refusal any more, and no mute result. -/
def Finishes (strict : Bool) (W : Bytes → Prop) (mute : α → Bool) (m : Cmd α) : Prop :=
  ∀ (e : Env) (s : Store) (w : World),
    Act.SatE m e s w (fun a s' w' => Moves e W s w s' w' ∧ mute a = false) (fun _ _ _ => False)
      (Allowed strict)

variable {strict : Bool} {known : List (Bytes × StoreType)} {W : Bytes → Prop} {mute : α → Bool}

theorem Typed.of_quiet {e : Env} {s s' : Store} {w w' : World} (h : Typed known s)
    (hq : Quiet e s w s' w') : Typed known s' := by
  intro p hp x d hx
  rcases hq.kept p.1 id with hk | ⟨hk, -⟩
  · exact h p hp x d (hk ▸ hx)
  · rw [hk] at hx
    cases hx

theorem typed_nil (s : Store) : Typed [] s := fun _ hp => by cases hp

/-! ### Reads -/

theorem reads_pure (a : α) : Reads (pure a) := fun _ _ _ => .refl

theorem reads_bind {m : Run Store α} {f : α → Run Store β} (hm : Reads m) (hf : ∀ a, Reads (f a)) :
    Reads (m >>= f) := by
  intro e s w
  rw [Act.sat_bind]
  refine Act.sat_mono (hm e s w) ?_ (fun _ h => h)
  intro a s' w' hq
  refine Act.sat_mono (hf a e s' w') ?_ (fun _ h => h)
  exact fun b s'' w'' hq' => hq.trans hq'

theorem reads_map {m : Run Store α} (f : α → β) (hm : Reads m) : Reads (f <$> m) := by
  intro e s w
  rw [Act.sat_map]
  exact hm e s w

/-- A computation that leaves the store alone. -/
theorem reads_of_same {m : Run Store α}
    (h : ∀ e s w, Act.Sat m e s w (fun _ s' w' => s' = s ∧ w.ticks ≤ w'.ticks) NoExpect) : Reads m := by
  intro e s w
  refine Act.sat_mono (h e s w) ?_ (fun _ h => h)
  rintro a s' w' ⟨rfl, hw⟩
  exact ⟨hw, fun _ _ => .inl rfl, id, id⟩

theorem reads_now : Reads now := reads_of_same fun _ _ _ => ⟨rfl, Nat.le_succ _⟩

theorem reads_instantNow : Reads instantNow := reads_of_same fun _ _ _ => ⟨rfl, le_rfl⟩

theorem reads_get : Reads Act.get := reads_of_same fun _ _ _ => ⟨rfl, le_rfl⟩

theorem reads_find (key : Bytes) : Reads (Store.find key) := by
  intro e s w
  refine Act.sat_mono (Store.find_spec key) ?_ (fun _ h => .of_outOfRange h)
  rintro r s' w' ⟨hw, -, -, hview, hidx⟩
  exact .of_expire hw hview hidx

theorem reads_peekType (key : Bytes) : Reads (Store.peekType key) := by
  intro e s w
  refine Act.sat_mono (Store.peekType_spec key) ?_ (fun _ h => .of_outOfRange h)
  rintro r s' w' ⟨hw, -, hview, hidx⟩
  exact .of_expire hw hview hidx

theorem reads_hasKey (key : Bytes) : Reads (Store.hasKey key) :=
  reads_bind (reads_find key) fun _ => reads_pure _

theorem reads_typeOf (key : Bytes) : Reads (Store.typeOf key) :=
  reads_bind (reads_find key) fun _ => reads_pure _

theorem reads_hasExpiry (key : Bytes) : Reads (Store.hasExpiry key) :=
  reads_bind (reads_find key) fun _ => reads_pure _

theorem reads_getString (key : Bytes) : Reads (Store.getString key) :=
  reads_bind (reads_find key) fun _ => reads_pure _

theorem reads_read {τ : Type} (V : Variant τ) (key : Bytes) : Reads (Store.read V key) :=
  reads_bind (reads_find key) fun _ => reads_pure _

theorem reads_pttlMs (key : Bytes) : Reads (Store.pttlMs key) := by
  refine reads_bind (reads_find key) fun found => ?_
  cases found with
  | none => exact reads_pure _
  | some entry =>
    dsimp only
    cases entry.expireAt with
    | none => exact reads_pure _
    | some t => exact reads_bind reads_now fun _ => reads_pure _

theorem reads_ttl (key : Bytes) : Reads (Store.ttl key) :=
  reads_bind (reads_pttlMs key) fun _ => reads_pure _

/-- A list of reads answers once for each element. -/
theorem sat_mapList {f : α → Run Store β} (hf : ∀ a, Reads (f a)) (as : List α) :
    ∀ (e : Env) (s : Store) (w : World), Act.Sat (Act.mapList f as) e s w
      (fun bs s' w' => Quiet e s w s' w' ∧ bs.length = as.length) NoExpect := by
  induction as with
  | nil => exact fun e s w => ⟨.refl, rfl⟩
  | cons a as ih =>
    intro e s w
    unfold Act.mapList
    simp only [Act.sat_bind, Act.sat_pure]
    refine Act.sat_mono (hf a e s w) ?_ (fun _ h => h)
    intro b s₁ w₁ hq₁
    refine Act.sat_mono (ih e s₁ w₁) ?_ (fun _ h => h)
    rintro bs s₂ w₂ ⟨hq₂, hlen⟩
    exact ⟨hq₁.trans hq₂, by rw [List.length_cons, List.length_cons, hlen]⟩

theorem reads_mapList {f : α → Run Store β} (hf : ∀ a, Reads (f a)) (as : List α) :
    Reads (Act.mapList f as) := fun e s w =>
  Act.sat_mono (sat_mapList hf as e s w) (fun _ _ _ h => h.1) (fun _ h => h)

theorem reads_countList {f : α → Run Store Bool} (hf : ∀ a, Reads (f a)) :
    ∀ as, Reads (Act.countList f as)
  | [] => reads_pure _
  | a :: as => reads_bind (hf a) fun _ => reads_bind (reads_countList hf as) fun _ => reads_pure _

theorem reads_ite {p : Prop} [Decidable p] {m m' : Run Store α} (h : p → Reads m)
    (h' : ¬ p → Reads m') : Reads (if p then m else m') := by
  split
  · exact h ‹_›
  · exact h' ‹_›

theorem reads_panic {p : Panic} (h : NoExpect p) : Reads (Act.panic p : Run Store α) :=
  fun _ _ _ => h

theorem reads_addDuration (t : SystemTime) (d : Duration) : Reads (addDuration t d) :=
  reads_ite (fun _ => reads_pure _) fun _ => reads_panic fun _ h => by cases h

section durations

-- the elaborator would evaluate the test of the range
attribute [local irreducible] addDuration

theorem reads_deadlineAfterMillis (millis : Int) : Reads (deadlineAfterMillis millis) :=
  reads_bind reads_now fun _ => reads_ite (fun _ => reads_addDuration _ _) fun _ => reads_pure _

theorem reads_epochPlusMillis (millis : Nat) : Reads (epochPlusMillis millis) := by
  unfold epochPlusMillis
  exact reads_addDuration _ _

theorem reads_deadlineAtUnixMillis (millis : Int) : Reads (deadlineAtUnixMillis millis) := by
  unfold deadlineAtUnixMillis
  split
  · exact reads_pure _
  · exact reads_epochPlusMillis millis.toNat

end durations

/-! ### Looks -/

theorem looks_pure (a : α) : Looks (pure a) := fun _ _ _ => .refl

theorem looks_throw {r : Reply} (h : r.isError = true) : Looks (throw r : Cmd α) :=
  fun _ _ _ => ⟨h, .refl⟩

theorem looks_lift {m : Run Store α} (h : Reads m) : Looks (liftM m : Cmd α) := by
  intro e s w
  rw [Act.satE_lift]
  exact h e s w

theorem looks_bind {m : Cmd α} {f : α → Cmd β} (hm : Looks m) (hf : ∀ a, Looks (f a)) :
    Looks (m >>= f) := by
  intro e s w
  rw [Act.satE_bind]
  refine Act.satE_mono (hm e s w) ?_ (fun _ _ _ h => h) (fun _ h => h)
  intro a s' w' hq
  refine Act.satE_mono (hf a e s' w') ?_ ?_ (fun _ h => h)
  · exact fun b s'' w'' hq' => hq.trans hq'
  · exact fun r s'' w'' h => ⟨h.1, hq.trans h.2⟩

theorem looks_ite {p : Prop} [Decidable p] {m m' : Cmd α} (h : p → Looks m) (h' : ¬ p → Looks m') :
    Looks (if p then m else m') := by
  split
  · exact h ‹_›
  · exact h' ‹_›

/-- A refusal in front of the rest. -/
theorem looks_guard {p : Prop} [Decidable p] {r : Reply} {rest : Unit → Cmd α} (hr : r.isError = true)
    (h : Looks (rest ())) : Looks (if p then throw r >>= rest else rest ()) :=
  looks_ite (fun _ _ _ _ => ⟨hr, .refl⟩) fun _ => h

theorem looks_orThrow {r : Reply} (h : r.isError = true) : ∀ o : Option α, Looks (orThrow r o)
  | some a => looks_pure a
  | none => looks_throw h

theorem looks_intArg (bytes : Bytes) : Looks (intArg bytes) := looks_orThrow rfl _

theorem looks_floatArg (bytes : Bytes) : Looks (floatArg bytes) := looks_orThrow rfl _

theorem looks_exactArgs (argv : List Bytes) (name : String) (n : Nat) : Looks (exactArgs argv name n) :=
  looks_ite (fun _ => looks_pure _) fun _ => looks_throw rfl

theorem looks_minArgs (argv : List Bytes) (name : String) (n : Nat) : Looks (minArgs argv name n) :=
  looks_ite (fun _ => looks_pure _) fun _ => looks_throw rfl

theorem looks_checkType (key : Bytes) (want : StoreType) : Looks (checkType key want) :=
  looks_bind (looks_lift (reads_peekType key)) fun _ =>
    looks_ite (fun _ => looks_throw rfl) fun _ => looks_pure _

/-! ### Does -/

theorem Looks.does {m : Cmd α} (h : Looks m) : Does strict known W mute m := by
  intro e s w _
  refine Act.satE_mono (h e s w) ?_ (fun _ _ _ h => h) (fun _ h => h.allowed)
  exact fun a s' w' hq => ⟨.of_quiet hq, fun _ => hq⟩

/-- What a handler does, seen from a state before it from which nothing was written. -/
theorem Does.after {m : Cmd α} {e : Env} {s s' : Store} {w w' : World}
    (h : Does strict known W mute m) (ht : Typed known s') (hq : Quiet e s w s' w') :
    Act.SatE m e s' w'
      (fun a s'' w'' => Moves e W s w s'' w'' ∧ (mute a = true → Quiet e s w s'' w''))
      (fun r s'' w'' => r.isError = true ∧ Quiet e s w s'' w'') (Allowed strict) := by
  refine Act.satE_mono (h e s' w' ht) ?_ ?_ (fun _ h => h)
  · exact fun a s'' w'' h => ⟨(Moves.of_quiet hq).trans h.1, fun hmute => hq.trans (h.2 hmute)⟩
  · exact fun r s'' w'' h => ⟨h.1, hq.trans h.2⟩

/-- What the end of a handler does, seen from a state before its writes. -/
theorem Finishes.after {m : Cmd α} {e : Env} {s s' : Store} {w w' : World}
    (h : Finishes strict W mute m) (hmove : Moves e W s w s' w') :
    Act.SatE m e s' w'
      (fun a s'' w'' => Moves e W s w s'' w'' ∧ (mute a = true → Quiet e s w s'' w''))
      (fun r s'' w'' => r.isError = true ∧ Quiet e s w s'' w'') (Allowed strict) := by
  refine Act.satE_mono (h e s' w') ?_ (fun _ _ _ h => h.elim) (fun _ h => h)
  exact fun a s'' w'' h => ⟨hmove.trans h.1, fun hmute => by rw [h.2] at hmute; cases hmute⟩

theorem does_bind {β : Type} {m : Cmd β} {f : β → Cmd α} (hm : Looks m)
    (hf : ∀ b, Does strict known W mute (f b)) : Does strict known W mute (m >>= f) := by
  intro e s w ht
  rw [Act.satE_bind]
  refine Act.satE_mono (hm e s w) ?_ (fun _ _ _ h => h) (fun _ h => h.allowed)
  exact fun b s' w' hq => (hf b).after (ht.of_quiet hq) hq

theorem does_ite {p : Prop} [Decidable p] {m m' : Cmd α} (h : p → Does strict known W mute m)
    (h' : ¬ p → Does strict known W mute m') : Does strict known W mute (if p then m else m') := by
  split
  · exact h ‹_›
  · exact h' ‹_›

/-- A refusal in front of the rest. -/
theorem does_guard {p : Prop} [Decidable p] {r : Reply} {rest : Unit → Cmd α}
    (hr : r.isError = true) (h : ¬ p → Does strict known W mute (rest ())) :
    Does strict known W mute (if p then throw r >>= rest else rest ()) :=
  does_ite (fun _ _ _ _ _ => ⟨hr, .refl⟩) h

/-- A choice between two looks in front of the rest. -/
theorem does_branch {β : Type} {p : Prop} [Decidable p] {m m' : Cmd β} {rest : β → Cmd α}
    (hm : Looks m) (hm' : Looks m') (h : ∀ b, Does strict known W mute (rest b)) :
    Does strict known W mute (if p then m >>= rest else m' >>= rest) :=
  does_ite (fun _ => does_bind hm h) fun _ => does_bind hm' h

theorem does_minArgs {argv : List Bytes} {name : String} {n : Nat} {f : Unit → Cmd α}
    (hf : n < argv.length → Does strict known W mute (f ())) :
    Does strict known W mute (minArgs argv name n >>= f) := by
  intro e s w ht
  rw [Act.satE_bind]
  unfold minArgs
  split
  · exact hf ‹_› e s w ht
  · exact ⟨rfl, .refl⟩

theorem does_exactArgs {argv : List Bytes} {name : String} {n : Nat} {f : Unit → Cmd α}
    (hf : argv.length = n + 1 → Does strict known W mute (f ())) :
    Does strict known W mute (exactArgs argv name n >>= f) := by
  intro e s w ht
  rw [Act.satE_bind]
  unfold exactArgs
  split
  · exact hf ‹_› e s w ht
  · exact ⟨rfl, .refl⟩

/-- After `check_type` the type of the key is known. -/
theorem does_checkType {key : Bytes} {want : StoreType} {f : Unit → Cmd α}
    (hf : Does strict ((key, want) :: known) W mute (f ())) :
    Does strict known W mute (checkType key want >>= f) := by
  intro e s w ht
  unfold checkType
  simp only [Act.satE_bind, Act.satE_lift]
  refine Act.sat_mono (Store.peekType_spec key) ?_ (fun _ h => (NoExpect.of_outOfRange h).allowed)
  rintro found s' w' ⟨hw, rfl, hview, hidx⟩
  have hq : Quiet e s w s' w' := .of_expire hw hview hidx
  rw [← expire_self, ← hview]
  split
  · exact ⟨rfl, hq⟩
  · rename_i hany
    have ht' : Typed ((key, want) :: known) s' := by
      intro p hp x d hx
      rcases List.mem_cons.mp hp with rfl | hp
      · rw [hx] at hany
        simpa using hany
      · exact ht.of_quiet hq p hp x d hx
    rw [Act.satE_pure]
    exact hf.after ht' hq

theorem finishes_pure {a : α} (h : mute a = false) : Finishes strict W mute (pure a) :=
  fun _ _ _ => ⟨.refl, h⟩

theorem finishes_ite {p : Prop} [Decidable p] {m m' : Cmd α} (h : Finishes strict W mute m)
    (h' : Finishes strict W mute m') : Finishes strict W mute (if p then m else m') := by
  split
  · exact h
  · exact h'

theorem finishes_bind {β : Type} {m : Run Store β} {f : β → Cmd α} (hm : Writes strict [] W m)
    (hf : ∀ b, Finishes strict W mute (f b)) : Finishes strict W mute (liftM m >>= f) := by
  intro e s w
  rw [Act.satE_bind, Act.satE_lift]
  refine Act.sat_mono (hm e s w (typed_nil s)) ?_ (fun _ h => h)
  intro b s' w' hmove
  refine Act.satE_mono (hf b e s' w') ?_ (fun _ _ _ h => h) (fun _ h => h)
  exact fun a s'' w'' h => ⟨hmove.trans h.1, h.2⟩

/-- A write, and the end of the handler. -/
theorem does_writes {β : Type} {m : Run Store β} {f : β → Cmd α} (hm : Writes strict known W m)
    (hf : ∀ b, Finishes strict W mute (f b)) : Does strict known W mute (liftM m >>= f) := by
  intro e s w ht
  rw [Act.satE_bind, Act.satE_lift]
  refine Act.sat_mono (hm e s w ht) ?_ (fun _ h => h)
  exact fun b s' w' hmove => (hf b).after hmove

/-- Two steps: what follows a mute result may still fail, what follows a write may not. -/
theorem does_seq {β : Type} {mute' : β → Bool} {m : Cmd β} {f : β → Cmd α}
    (hm : Does strict known W mute' m)
    (hquiet : ∀ b, mute' b = true → Does strict known W mute (f b))
    (hmoved : ∀ b, mute' b = false → Finishes strict W mute (f b)) :
    Does strict known W mute (m >>= f) := by
  intro e s w ht
  rw [Act.satE_bind]
  refine Act.satE_mono (hm e s w ht) ?_ (fun _ _ _ h => h) (fun _ h => h)
  intro b s' w' hb
  cases hmute : mute' b with
  | true => exact (hquiet b hmute).after (ht.of_quiet (hb.2 hmute)) (hb.2 hmute)
  | false => exact (hmoved b hmute).after hb.1

/-- A store operation as a step of a handler. -/
theorem does_lift {m : Run Store α}
    (h : ∀ (e : Env) (s : Store) (w : World), Typed known s → Act.Sat m e s w
      (fun a s' w' => Moves e W s w s' w' ∧ (mute a = true → Quiet e s w s' w')) (Allowed strict)) :
    Does strict known W mute (liftM m : Cmd α) := by
  intro e s w ht
  rw [Act.satE_lift]
  exact h e s w ht

end judgements

end Klyro
