import Klyro.Commands.Scans
import Klyro.Types.Memory.Steady

/-!
# Operations of the store that see the live keys only

What a store still holds of keys that are due, where it keeps its keys and how often they were used is
not seen by its operations, at a clock that stands.

* `ByLive e t m` — the keys live at `t`, with what they hold, settle how `m` ends.
* `byLive_find_bind` — a lookup, and what is done with the entry.
* `byLive_write`, `byLive_getOrCreate`, `byLive_existingMemory` — values in place, as far as the value
  settles what is done with it.
* `byLive_copy` — also of a memory index, which is built anew.
-/

set_option autoImplicit false

namespace Klyro

open Store Keyspace MapOp

/-- The keys live at `t` settle how `m` ends. -/
abbrev ByLive {α : Type} (e : Env) (t : SystemTime) (m : Run Store α) : Prop :=
  Act.Settled Indexed (Store.live t) e m

/-- The same of a handler. -/
abbrev ByLiveE {α : Type} (e : Env) (t : SystemTime) (m : Cmd α) : Prop := ByLive e t m.run

section operations

variable {α β τ : Type} {V : Variant τ} {e : Env} {t : SystemTime} {key : Bytes}

/-- An operation with a specification by the live keys. -/
theorem byLive_of {m : Run Store α} (answer : Keyspace → α) (left : Keyspace → Keyspace)
    (h : ∀ s w, Indexed s → Act.Sat m e s w
      (fun a s' _ => (a = answer (s.live t) ∧ s'.live t = left (s.live t)) ∧ Indexed s') (fun _ => False)) :
    ByLive e t m :=
  Act.settled_of answer left fun s w hs =>
    Act.sat_mono (h s w hs) (fun _ _ _ hend => ⟨hend.2, hend.1⟩) (fun _ hp => hp)

theorem byLive_modify {g : Store → Store} (hview : ∀ s, (g s).view = s.view)
    (hidx : ∀ s, Indexed s → Indexed (g s)) : ByLive e t (Act.modify g) :=
  byLive_of (fun _ => ()) id fun s _ hs =>
    ⟨⟨rfl, congrArg (Keyspace.liveAt · t) (hview s)⟩, hidx s hs⟩

theorem byLive_markDirty : ByLive e t Store.markDirty :=
  byLive_modify (fun _ => rfl) fun _ hs => indexed_bumpDirty.mpr hs

theorem byLive_setString (key value : Bytes) : ByLive e t (Store.setString key value) := by
  refine byLive_of (fun _ => ()) (fun K => Function.update K key (some (.str value, none))) fun s w hs => ?_
  refine Act.sat_mono (setString_spec key value) ?_ (fun p hp => hp.2 hs)
  rintro _ s' w' ⟨-, hview, hidx⟩
  exact ⟨⟨rfl, live_update hview⟩, hidx hs⟩

/-- What a flush counts also counts the keys that are due; nobody asks for it. -/
theorem byLive_flushed (a : α) : ByLive e t (Store.flush >>= fun _ => pure a) :=
  byLive_of (fun _ => a) (fun _ _ => none) fun s _ _ =>
    ⟨⟨rfl, rfl⟩, (indexed_empty s).congr rfl rfl rfl⟩

variable (ht : e.StandsAt t)

include ht

/-- A lookup that reads the clock once and answers from the live entry. -/
theorem byLive_look {m : Run Store α} (key : Bytes) (answer : Option (Value × Option SystemTime) → α)
    (hspec : ∀ s w, Act.Sat m e s w (fun r s' _ => r = answer (s.view.liveAt (e.clock w.ticks) key) ∧
      s'.view = s.view.expire (e.clock w.ticks) key ∧ (Indexed s → Indexed s')) (OutOfRange s)) :
    ByLive e t m := by
  refine byLive_of (fun K => answer (K key)) id fun s w hs => ?_
  refine Act.sat_mono (hspec s w) ?_ (fun p hp => hp.2 hs)
  rintro r s' w' ⟨rfl, hview, hidx⟩
  rw [ht] at hview ⊢
  exact ⟨⟨rfl, live_expire hview⟩, hidx hs⟩

theorem byLive_peekType (key : Bytes) : ByLive e t (Store.peekType key) :=
  byLive_look ht key (fun x => x.map fun p => p.1.typeOf) fun _ _ =>
    Act.sat_mono (peekType_spec key) (fun _ _ _ h => h.2) (fun _ hp => hp)

theorem byLive_hasKey (key : Bytes) : ByLive e t (Store.hasKey key) :=
  byLive_look ht key Option.isSome fun _ _ =>
    Act.sat_mono (hasKey_spec key) (fun _ _ _ h => h.2) (fun _ hp => hp)

/-- A lookup of which only the value and the deadline are used. -/
theorem byLive_find_map (key : Bytes) (f : Option Entry → α)
    (answer : Option (Value × Option SystemTime) → α) (hf : ∀ o : Option Entry, f o = answer (o.map entryView)) :
    ByLive e t (do let entry ← Store.find key; pure (f entry)) := by
  refine byLive_look ht key answer fun s w => ?_
  rw [Act.sat_bind]
  refine Act.sat_mono (find_spec key) ?_ (fun _ hp => hp)
  rintro r s' w' ⟨-, -, hlive, hview⟩
  exact ⟨(hf r).trans (congrArg answer hlive), hview⟩

theorem byLive_typeOf (key : Bytes) : ByLive e t (Store.typeOf key) :=
  byLive_find_map ht key _ (fun x => x.map fun p => p.1.typeOf) fun o => by cases o <;> rfl

theorem byLive_hasExpiry (key : Bytes) : ByLive e t (Store.hasExpiry key) :=
  byLive_find_map ht key _ (fun x => x.any fun p => p.2.isSome) fun o => by cases o <;> rfl

theorem byLive_getString (key : Bytes) : ByLive e t (Store.getString key) :=
  byLive_find_map ht key _ (fun x => x.bind fun p => textOf p.1) fun o => by
    cases o with
    | none => rfl
    | some entry =>
      show _ = textOf entry.value
      simp only [Option.map_some]
      cases entry.value <;> rfl

theorem byLive_read (V : Variant τ) (key : Bytes) : ByLive e t (Store.read V key) :=
  byLive_find_map ht key _ (held V) fun o => by cases o <;> rfl

theorem byLive_pttlMs (key : Bytes) : ByLive e t (Store.pttlMs key) := by
  refine byLive_of (fun K => timeLeft t (K key)) id fun s w hs => ?_
  refine Act.sat_mono (Act.sat_and (pttlMs_refines ht hs) (pttlMs_spec key)) ?_ (fun p hp => hp.1)
  rintro a s' w' ⟨hsame, -, hidx, -⟩
  exact ⟨hsame, hidx hs⟩

theorem byLive_ttl (key : Bytes) : ByLive e t (Store.ttl key) :=
  Act.settled_bind (byLive_pttlMs ht key) fun _ => Act.settled_pure _

theorem byLive_del (key : Bytes) : ByLive e t (Store.del key) := by
  refine byLive_of (fun K => (K key).isSome) (fun K => Function.update K key none) fun s w hs => ?_
  refine Act.sat_mono (del_spec key) ?_ (fun p hp => hp.2 hs)
  rintro a s' w' ⟨-, rfl, hview, hidx⟩
  rw [ht]
  exact ⟨⟨rfl, live_update hview⟩, hidx hs⟩

theorem byLive_deleteIfEmpty (key : Bytes) : ByLive e t (Store.deleteIfEmpty key) := by
  refine byLive_of (fun _ => ()) (fun K => Function.update K key (unlessEmpty (K key))) fun s w hs => ?_
  refine Act.sat_mono (deleteIfEmpty_spec key) ?_ (fun p hp => hp.2 hs)
  rintro _ s' w' ⟨-, hview, hidx⟩
  rw [ht] at hview
  refine ⟨⟨rfl, ?_⟩, hidx hs⟩
  rw [live_update hview, pruned_unlessEmpty]
  rfl

theorem byLive_setExpireAt (key : Bytes) (deadline : Option SystemTime) :
    ByLive e t (Store.setExpireAt key deadline) := by
  refine byLive_of (fun K => (K key).isSome) (fun K => Function.update K key
    (pruned t ((K key).map fun p => (p.1, deadline)))) fun s w hs => ?_
  refine Act.sat_mono (setExpireAt_spec key deadline) ?_ (fun p hp => hp.2 hs)
  rintro _ s' w' ⟨-, rfl, hview, hidx⟩
  rw [ht] at hview ⊢
  exact ⟨⟨rfl, live_update hview⟩, hidx hs⟩

theorem byLive_updateString (key value : Bytes) : ByLive e t (Store.updateString key value) := by
  refine byLive_of (fun _ => ()) (fun K => Function.update K key
    (some (.str value, (K key).bind Prod.snd))) fun s w hs => ?_
  refine Act.sat_mono (Act.sat_and (updateString_refines value ht hs) (updateString_spec key value)) ?_
    (fun p hp => hp.1)
  rintro _ s' w' ⟨hlive, -, -, hidx⟩
  exact ⟨⟨rfl, hlive⟩, hidx hs⟩

theorem byLive_rename (key newKey : Bytes) : ByLive e t (Store.rename key newKey) := by
  refine byLive_of (fun K => (K key).isSome) (fun K => ((MapOp.rename key newKey).apply t K).2)
    fun s w hs => ?_
  refine Act.sat_mono (Act.sat_and (rename_refines newKey ht hs) (rename_spec key newKey)) ?_
    (fun p hp => hp.1)
  rintro _ s' w' ⟨hsame, -, rfl, hidx, -⟩
  rw [ht]
  exact ⟨⟨rfl, congrArg Prod.snd hsame⟩, hidx hs⟩

theorem byLive_createMemory (key : Bytes) (memory : Memory) : ByLive e t (Store.createMemory key memory) := by
  refine byLive_of (fun K => (K key).isNone) (fun K => ((MapOp.createMemory key memory).apply t K).2)
    fun s w hs => ?_
  refine Act.sat_mono (Act.sat_and (createMemory_refines memory ht hs) (createMemory_spec key memory)) ?_
    (fun p hp => hp.1)
  rintro _ s' w' ⟨hsame, -, rfl, hidx, -⟩
  rw [ht]
  exact ⟨⟨rfl, congrArg Prod.snd hsame⟩, hidx hs⟩

/-! ## Values in place -/

omit ht in
/-- How the use of a value ends is how the use of the key that holds it ends. -/
theorem sat_used {use : Run τ α} {v : τ} {d : Option SystemTime} {r : Except Panic (α × τ)}
    (hr : Act.EndsAs (fun _ => True) id e use v r) {s s' : Store} {w : World} (hs : Indexed s')
    (hview : s'.view = Function.update s.view key (some (V.wrap v, d)))
    (hkept : ∀ v, pruned t (some (V.wrap v, d)) = some (V.wrap v, d)) :
    Act.Sat use e v w (fun a v' _ => Indexed (setValue key (V.wrap v') s') ∧
        r.map (fun p => (some p.1, Function.update (s.live t) key (some (V.wrap p.2, d)))) =
          .ok (some a, (setValue key (V.wrap v') s').live t))
      (fun p => r.map (fun p => (some p.1, Function.update (s.live t) key (some (V.wrap p.2, d)))) =
        .error p) := by
  refine Act.sat_mono (hr v w trivial rfl) ?_ ?_
  · rintro a v' w' ⟨-, rfl⟩
    refine ⟨hs.setValue, ?_⟩
    rw [live_put (fun _ => v') hview (hkept v')]
    rfl
  · rintro p rfl
    rfl

omit ht in
/-- A use of the value in place, when it is of the right type. -/
theorem byLive_inPlace {use : Run τ α} {m : Run Store (Option α)} (key : Bytes) (huse : Act.Steady e use)
    (hspec : ∀ s w Q R, Indexed s →
      (∀ s' w', (∀ v d, s.live t key ≠ some (V.wrap v, d)) → s'.view = s.view.expire t key →
        Indexed s' → Q none s' w') →
      (∀ v d s' w', s.live t key = some (V.wrap v, d) → s'.view = s.view.expire t key → Indexed s' →
        Act.Sat use e v w' (fun a v' w'' => Q (some a) (setValue key (V.wrap v') s') w'') R) →
      Act.Sat m e s w Q R) : ByLive e t m := by
  intro K
  by_cases hheld : ∃ v d, K key = some (V.wrap v, d)
  · obtain ⟨v, d, hv⟩ := hheld
    obtain ⟨r, hr⟩ := huse v
    refine ⟨r.map fun p => (some p.1, Function.update K key (some (V.wrap p.2, d))), ?_⟩
    rintro s w hs rfl
    refine hspec s w _ _ hs ?_ ?_
    · exact fun _ _ hother _ _ => absurd hv (hother v d)
    · intro v' d' s' w' hlive hview hidx
      obtain ⟨rfl, rfl⟩ := wrap_eq (hv.symm.trans hlive)
      refine sat_used hr hidx ?_ fun _ => pruned_of_live hv
      rw [hview, ← hv]
      rfl
  · refine ⟨.ok (none, K), ?_⟩
    rintro s w hs rfl
    refine hspec s w _ _ hs ?_ ?_
    · exact fun _ _ _ hview hidx => ⟨hidx, by rw [live_expire hview]⟩
    · exact fun v d _ _ hlive _ _ => absurd ⟨v, d, hlive⟩ hheld

theorem byLive_write {use : Run τ α} (huse : Act.Steady e use) (V : Variant τ) (key : Bytes) :
    ByLive e t (Store.write V key use) := by
  refine byLive_inPlace (V := V) key huse fun s w Q R hs hother hheld => ?_
  refine sat_write (fun p hp => (hp.2 hs).elim) ?_ ?_
  · intro s' w' _ hnot hview hidx
    rw [ht] at hnot hview
    exact hother s' w' hnot hview (hidx hs)
  · intro v d s' w' _ hlive hview hidx
    rw [ht] at hlive hview
    exact hheld v d s' w' hlive hview (hidx hs)

theorem byLive_existingMemory {use : Run Memory α} (huse : Act.Steady e use) (key : Bytes) :
    ByLive e t (Store.existingMemory key use) := by
  refine byLive_inPlace (V := .memory) key huse fun s w Q R hs hother hheld => ?_
  refine sat_existingMemory (fun p hp => (hp.2 hs).elim) ?_ ?_
  · intro s' w' _ hnot hview hidx
    rw [ht] at hnot hview
    exact hother s' w' hnot hview (hidx hs)
  · intro m d s' w' _ hlive hview hidx
    rw [ht] at hlive hview
    exact hheld m d s' w' hlive hview (hidx hs)

theorem byLive_getOrCreate {use : Run τ α} (huse : Act.Steady e use) (V : Variant τ) (key : Bytes) :
    ByLive e t (Store.getOrCreate V key use) := by
  intro K
  by_cases hheld : ∃ v d, K key = some (V.wrap v, d) ∨ K key = none ∧ v = V.empty ∧ d = none
  · obtain ⟨v, d, hv⟩ := hheld
    obtain ⟨r, hr⟩ := huse v
    refine ⟨r.map fun p => (some p.1, Function.update K key (some (V.wrap p.2, d))), ?_⟩
    rintro s w hs rfl
    refine sat_getOrCreate (fun p hp => (hp.2 hs).elim) ?_ ?_
    · intro x d' s' w' _ hlive hx _ _
      rw [ht] at hlive
      rcases hv with hv | ⟨hv, -⟩
      · cases hv.symm.trans hlive
        rw [V.unwrap_wrap] at hx
        cases hx
      · cases hv.symm.trans hlive
    · intro v' d' s' w' _ hlive hview hidx
      rw [ht] at hlive
      have hsame : v' = v ∧ d' = d := by
        rcases hlive with hlive | ⟨hlive, rfl, rfl⟩
        · rcases hv with hv | ⟨hv, -⟩
          · exact wrap_eq (hv.symm.trans hlive)
          · cases hv.symm.trans hlive
        · rcases hv with hv | ⟨-, rfl, rfl⟩
          · cases hv.symm.trans hlive
          · exact ⟨rfl, rfl⟩
      obtain ⟨rfl, rfl⟩ := hsame
      refine sat_used hr (hidx hs) hview fun _ => ?_
      rcases hv with hv | ⟨-, -, rfl⟩
      · exact pruned_of_live hv
      · rfl
  · refine ⟨.ok (none, K), ?_⟩
    rintro s w hs rfl
    refine sat_getOrCreate (fun p hp => (hp.2 hs).elim) ?_ ?_
    · intro x d s' w' _ _ _ hview hidx
      rw [ht] at hview
      exact ⟨hidx hs, by rw [live_expire hview]⟩
    · intro v d s' w' _ hlive _ _
      rw [ht] at hlive
      exact absurd ⟨v, d, hlive⟩ hheld

/-! ## Copies -/

/-- A clone of a value is settled by the value. -/
theorem cloneValue_ends (x : Value) : ∃ r : Except Panic Value, ∀ s w,
    Act.Sat (cloneValue x) e s w (fun x' s' _ => s' = s ∧ r = .ok x') (fun p => r = .error p) := by
  by_cases hm : ∃ m, x = .memory m
  · obtain ⟨m, rfl⟩ := hm
    obtain ⟨r, hr⟩ := Memory.steady_clone ht m
    refine ⟨r.map fun p => .memory p.1, fun s w => ?_⟩
    refine sat_cloneValue (fun hplain => absurd rfl (hplain m)) fun m' hm' => ?_
    cases hm'
    refine Act.sat_mono (hr m w trivial rfl) ?_ ?_
    · rintro copy m' w' ⟨-, rfl⟩
      exact ⟨rfl, rfl⟩
    · rintro p rfl
      rfl
  · exact ⟨.ok x, fun s w => sat_cloneValue (fun _ => ⟨rfl, rfl⟩) fun m h => absurd ⟨m, h⟩ hm⟩

/-- The rule for `copy` while the clock stands. -/
theorem sat_copyLive {dest : Bytes} {replace : Bool} {s : Store} {w : World} (hs : Indexed s)
    {Q : Option Bool → Store → World → Prop} {R : Panic → Prop}
    (hmiss : s.live t key = none → ∀ s' w', Indexed s' → s'.live t = s.live t → Q none s' w')
    (htaken : (s.live t key).isSome → replace = false ∧ (s.live t dest).isSome →
      ∀ s' w', Indexed s' → s'.live t = s.live t → Q (some false) s' w')
    (hcopy : ∀ x d, s.live t key = some (x, d) → ¬ (replace = false ∧ (s.live t dest).isSome) →
      ∀ s' w', Act.Sat (cloneValue x) e s' w' (fun x' s₁ w'' => s₁ = s' ∧ ∀ s'', Indexed s'' →
        s''.live t = Function.update (s.live t) dest (some (x', d)) → Q (some true) s'' w'') R) :
    Act.Sat (Store.copy key dest replace) e s w Q R := by
  have htwice : ((s.view.expire t key).expire t dest).liveAt t = s.live t := by
    rw [Store.liveAt_expire, Store.liveAt_expire]
    rfl
  refine sat_copy (fun p hp => (hp.2 hs).elim) ?_ ?_ ?_ ?_
  · intro s' w' _ hlive hview hidx
    rw [ht] at hlive hview
    exact hmiss hlive s' w' (hidx hs) (live_expire hview)
  · intro s' w' _ hreplace hsome hdest hview hidx
    rw [ht] at hsome
    rw [ht, ht, Store.liveAt_expire] at hdest
    rw [ht, ht] at hview
    refine htaken hsome ⟨hreplace, hdest⟩ s' w' (hidx hs) ?_
    unfold live
    rw [hview]
    exact htwice
  · intro _ _ hsome hgone
    rw [ht, ht, Store.liveAt_expire] at hgone
    rw [ht, hgone] at hsome
    cases hsome
  · intro x d s' w' _ hlive hview hfree hidx
    rw [ht] at hlive
    have hmid : s'.live t = s.live t := by
      unfold live
      rw [hview, ht, ht]
      split
      · exact Store.liveAt_expire s.view key
      · exact htwice
    have hnot : ¬ (replace = false ∧ (s.live t dest).isSome = true) := by
      rintro ⟨hr, hsome⟩
      rw [← hmid] at hsome
      have hthere := isSome_view_of_live hsome
      rw [(hfree hr).1] at hthere
      cases hthere
    refine Act.sat_mono (hcopy x d hlive hnot s' w') ?_ (fun _ hp => hp)
    rintro x' s₁ w'' ⟨rfl, hend⟩
    refine ⟨rfl, fun s'' hview' hidx' => hend s'' (hidx' (hidx hs)) ?_⟩
    rw [live_update hview', hmid, pruned_of_live hlive]

theorem byLive_copy (key dest : Bytes) (replace : Bool) : ByLive e t (Store.copy key dest replace) := by
  intro K
  cases hkey : K key with
  | none =>
    refine ⟨.ok (none, K), ?_⟩
    rintro s w hs rfl
    refine sat_copyLive ht hs ?_ ?_ ?_
    · exact fun _ s' _ hs' hsame => ⟨hs', by rw [hsame]⟩
    · intro hsome
      rw [hkey] at hsome
      cases hsome
    · exact fun _ _ hlive => by cases hkey.symm.trans hlive
  | some p =>
    by_cases hdest : replace = false ∧ (K dest).isSome
    · refine ⟨.ok (some false, K), ?_⟩
      rintro s w hs rfl
      refine sat_copyLive ht hs ?_ ?_ ?_
      · exact fun hnone => by cases hkey.symm.trans hnone
      · exact fun _ _ s' _ hs' hsame => ⟨hs', by rw [hsame]⟩
      · exact fun _ _ _ hnot => absurd hdest hnot
    · obtain ⟨r, hr⟩ := cloneValue_ends ht p.1
      refine ⟨r.map fun x' => (some true, Function.update K dest (some (x', p.2))), ?_⟩
      rintro s w hs rfl
      refine sat_copyLive ht hs ?_ ?_ ?_
      · exact fun hnone => by cases hkey.symm.trans hnone
      · exact fun _ htaken => absurd htaken hdest
      · intro x d hlive _ s' w'
        cases hkey.symm.trans hlive
        refine Act.sat_mono (hr s' w') ?_ ?_
        · rintro x' s₁ w'' ⟨rfl, rfl⟩
          exact ⟨rfl, fun s'' hs'' hput => ⟨hs'', by rw [hput]; rfl⟩⟩
        · rintro q rfl
          rfl

/-! ## The list of the live keys -/

omit ht in
/-- The live keys of a map, sorted; nothing where there are too many to list. -/
theorem exists_keys (t : SystemTime) : ∃ keys : Keyspace → List Bytes, ∀ s : Store,
    sortBy cmpBytes ((s.liveEntries t).map Prod.fst) = keys (s.live t) := by
  classical
  refine ⟨fun K => if h : ∃ keys, Covers (fun key => (K key).isSome = true) keys then h.choose else [],
    fun s => ?_⟩
  have hthere : ∃ keys, Covers (fun key => (s.live t key).isSome = true) keys :=
    ⟨_, liveEntries_covers s t⟩
  exact ((liveEntries_covers s t).unique hthere.choose_spec).trans (dif_pos hthere).symm

/-- The clock is read, and of the keyspace only the sorted live keys. -/
theorem byLive_keys {m : List Bytes → Run Store α} (hm : ∀ keys, ByLive e t (m keys)) : ByLive e t (do
    let t ← now
    let s ← Act.get
    m (sortBy cmpBytes ((s.liveEntries t).map Prod.fst))) := by
  obtain ⟨keys, hkeys⟩ := exists_keys t
  intro K
  obtain ⟨r, hr⟩ := hm (keys K) K
  refine ⟨r, ?_⟩
  rintro s w hs rfl
  rw [Act.sat_bind, sat_now, Act.sat_bind, Act.sat_get, ht, hkeys]
  exact hr s _ hs rfl

theorem byLive_scan (start count : Nat) : ByLive e t (Store.scan start count) :=
  byLive_keys (m := fun keys => if keys.length ≤ start then pure ([], 0)
    else
      let stop := Nat.min ((start + Nat.max count 1) % (u64Max + 1)) keys.length
      if stop < start then Act.panic .bounds
      else pure ((keys.take stop).drop start, if keys.length ≤ stop then 0 else stop)) ht fun _ =>
    Act.settled_ite (Act.settled_pure _) (Act.settled_ite (Act.settled_panic _) (Act.settled_pure _))

theorem byLive_size : ByLive e t Store.size := by
  have hsize : Store.size = (do
      let t ← now
      let s ← Act.get
      pure (sortBy cmpBytes ((s.liveEntries t).map Prod.fst)).length) := by
    unfold Store.size
    simp only [(sortBy_perm _ _).length_eq, List.length_map]
  rw [hsize]
  exact byLive_keys ht fun _ => Act.settled_pure _

end operations

end Klyro
