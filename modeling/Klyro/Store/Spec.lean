import Klyro.Store.Indexes

/-!
# What the operations of the store do

The store seen as a plain map from keys to values with deadlines.  A lookup at `t` answers
`liveAt t` and leaves `expire t`: a key whose deadline has passed is dropped by the first lookup
that meets it.

* `find_spec`, `peekType_spec` — lookups.
* `sat_useValue`, `sat_getOrCreate`, `sat_write`, `sat_existingMemory` — the rules for computing on
  a value in place.
* `del_spec`, `deleteIfEmpty_spec`, `setExpireAt_spec`, `rename_spec`, `setString_spec`,
  `updateString_spec`, `createMemory_spec`, `evict_spec` — the mutators.

Every specification also says that the index invariant is kept, and that the only panic of a
store operation is `swap_remove` on broken indexes (`copy` and `rename` aside, see there).
-/

set_option autoImplicit false

namespace Klyro

namespace Keyspace

/-- Whether a deadline has passed at `t`. -/
def due (t : SystemTime) : Option (Value × Option SystemTime) → Bool
  | some (_, some d) => decide (d ≤ t)
  | _ => false

/-- What a lookup of `key` at `t` finds. -/
def liveAt (K : Keyspace) (t : SystemTime) (key : Bytes) : Option (Value × Option SystemTime) :=
  if due t (K key) then none else K key

/-- What a lookup of `key` at `t` leaves. -/
def expire (K : Keyspace) (t : SystemTime) (key : Bytes) : Keyspace :=
  Function.update K key (K.liveAt t key)

@[simp] theorem expire_self (K : Keyspace) (t : SystemTime) (key : Bytes) :
    K.expire t key key = K.liveAt t key := by
  simp [expire]

theorem expire_of_ne {K : Keyspace} {t : SystemTime} {key k : Bytes} (h : k ≠ key) :
    K.expire t key k = K k := by
  simp [expire, h]

@[simp] theorem update_expire (K : Keyspace) (t : SystemTime) (key : Bytes)
    (x : Option (Value × Option SystemTime)) :
    Function.update (K.expire t key) key x = Function.update K key x := by
  simp [expire]

theorem expire_of_not_due {K : Keyspace} {t : SystemTime} {key : Bytes} (h : due t (K key) = false) :
    K.expire t key = K := by
  simp [expire, liveAt, h]

end Keyspace

namespace Store

open Keyspace

variable {e : Env} {s : Store} {w : World}

/-- What a lookup of an entry shows. -/
def entryView (entry : Entry) : Value × Option SystemTime := (entry.value, entry.expireAt)

theorem view_eq_map (s : Store) (key : Bytes) : s.view key = (s.map.lookup key).map entryView := rfl

theorem due_view {t : SystemTime} {key : Bytes} :
    due t (s.view key) = (s.map.lookup key).any fun entry => !entry.isLive t := by
  rw [view_eq_map]
  cases s.map.lookup key with
  | none => rfl
  | some entry =>
    simp only [Option.map_some, entryView, Option.any_some, Entry.isLive]
    cases entry.expireAt with
    | none => rfl
    | some d =>
      simp only [due]
      by_cases h : d ≤ t
      · simp [h]
      · simp [h, not_le.mp h]

/-- `expire_if_due`. -/
theorem expireIfDue_spec (key : Bytes) :
    Act.Sat (expireIfDue key) e s w
      (fun _ s' w' => Later 1 w w' ∧ s'.view = s.view.expire (e.clock w.ticks) key ∧
        (Indexed s → Indexed s'))
      (OutOfRange s) := by
  unfold expireIfDue
  simp only [Act.sat_bind, sat_now, Act.sat_get]
  rw [← due_view]
  cases hd : due (e.clock w.ticks) (s.view key) with
  | true =>
    simp only [if_true, Act.sat_bind]
    refine Act.sat_mono (removeEntry_spec key) ?_ (fun _ h => h)
    rintro _ s' w' ⟨rfl, -, hview, hidx⟩
    rw [Act.sat_modify]
    refine ⟨⟨rfl, rfl, rfl⟩, ?_, fun h => (hidx h).congr rfl rfl rfl⟩
    refine Eq.trans hview ?_
    simp [expire, liveAt, hd]
  | false =>
    simp only [Bool.false_eq_true, if_false, Act.sat_pure]
    exact ⟨⟨rfl, rfl, rfl⟩, (expire_of_not_due hd).symm, id⟩

/-- **`find`** answers the live entry, drops a key that is due and touches no other. -/
theorem find_spec (key : Bytes) :
    Act.Sat (find key) e s w
      (fun r s' w' => Later 1 w w' ∧ r = s'.map.lookup key ∧
        r.map entryView = s.view.liveAt (e.clock w.ticks) key ∧
        s'.view = s.view.expire (e.clock w.ticks) key ∧ (Indexed s → Indexed s'))
      (OutOfRange s) := by
  unfold find
  simp only [Act.sat_bind]
  refine Act.sat_mono (expireIfDue_spec key) ?_ (fun _ h => h)
  rintro _ s₁ w₁ ⟨hw₁, hview₁, hidx₁⟩
  rw [Act.sat_get]
  simp only [Act.sat_modify]
  have hacc : ∀ b, (account b s₁).view = s₁.view ∧ (Indexed s₁ → Indexed (account b s₁)) := by
    intro b
    cases b
    · exact ⟨rfl, fun h => h.congr rfl rfl rfl⟩
    · exact ⟨rfl, fun h => h.congr rfl rfl rfl⟩
  have finish : ∀ s₂ w₂, Later 0 w₁ w₂ → s₂.view = s₁.view → (Indexed s₁ → Indexed s₂) →
      Later 1 w w₂ ∧ s₂.map.lookup key = s₂.map.lookup key ∧
        (s₂.map.lookup key).map entryView = s.view.liveAt (e.clock w.ticks) key ∧
        s₂.view = s.view.expire (e.clock w.ticks) key ∧ (Indexed s → Indexed s₂) := by
    intro s₂ w₂ hw₂ hview₂ hidx₂
    refine ⟨hw₁.trans hw₂, rfl, ?_, hview₂.trans hview₁, fun h => hidx₂ (hidx₁ h)⟩
    rw [← view_eq_map, hview₂, hview₁, expire_self]
  split
  · simp only [Act.sat_bind]
    refine Act.sat_mono (touch_spec key) ?_ (fun _ h => h.elim)
    rintro _ s₂ w₂ ⟨hw₂, hview₂, hidx₂⟩
    exact finish s₂ w₂ hw₂ (hview₂.trans (hacc _).1) fun h => hidx₂ ((hacc _).2 h)
  · exact finish _ w₁ (.refl _) (hacc _).1 (hacc _).2

/-- `find` with what it answers split into its cases. -/
theorem sat_find {key : Bytes} {Q : Option Entry → Store → World → Prop} {R : Panic → Prop}
    (hR : ∀ p, OutOfRange s p → R p)
    (hnone : ∀ s' w', Later 1 w w' → s.view.liveAt (e.clock w.ticks) key = none →
      s'.view = s.view.expire (e.clock w.ticks) key → (Indexed s → Indexed s') → Q none s' w')
    (hsome : ∀ entry s' w', Later 1 w w' →
      s.view.liveAt (e.clock w.ticks) key = some (entry.value, entry.expireAt) →
      s'.view = s.view.expire (e.clock w.ticks) key → (Indexed s → Indexed s') →
      s'.map.lookup key = some entry → Q (some entry) s' w') :
    Act.Sat (find key) e s w Q R := by
  refine Act.sat_mono (find_spec key) ?_ hR
  rintro (_ | entry) s' w' ⟨hw, hr, hlive, hview, hidx⟩
  · exact hnone s' w' hw hlive.symm hview hidx
  · exact hsome entry s' w' hw hlive.symm hview hidx hr.symm

/-- A computation that only looks: it drops `key` when it is due. -/
theorem peekType_spec (key : Bytes) :
    Act.Sat (peekType key) e s w
      (fun r s' w' => Later 1 w w' ∧
        r = (s.view.liveAt (e.clock w.ticks) key).map (fun p => p.1.typeOf) ∧
        s'.view = s.view.expire (e.clock w.ticks) key ∧ (Indexed s → Indexed s'))
      (OutOfRange s) := by
  unfold peekType
  simp only [Act.sat_bind]
  refine Act.sat_mono (expireIfDue_spec key) ?_ (fun _ h => h)
  rintro _ s' w' ⟨hw, hview, hidx⟩
  rw [Act.sat_get, Act.sat_pure]
  refine ⟨hw, ?_, hview, hidx⟩
  rw [← expire_self, ← hview, view_eq_map, Option.map_map]
  rfl

/-! ## Values in place -/

section values

variable {α τ : Type} {V : Variant τ} {key : Bytes} {use : Run τ α} {R : Panic → Prop}

/-- Put another value at a key. -/
def setValue (key : Bytes) (value : Value) (s : Store) : Store :=
  adjustEntry key (fun e => { e with value := value }) s

theorem view_setValue {value : Value} :
    (setValue key value s).view =
      Function.update s.view key ((s.view key).map fun p => (value, p.2)) := by
  funext k
  unfold view setValue adjustEntry
  rw [Assoc.lookup_adjust, Function.update_apply]
  by_cases hk : k = key
  · subst hk
    rw [if_pos rfl, if_pos rfl, Option.map_map, Option.map_map]
    rfl
  · rw [if_neg hk, if_neg hk]

theorem Indexed.setValue {value : Value} (h : Indexed s) : Indexed (setValue key value s) :=
  h.adjust fun _ => rfl

theorem sat_useValue {v : τ} {d : Option SystemTime} {Q : Option α → Store → World → Prop}
    (h : s.view key = some (V.wrap v, d)) :
    Act.Sat (useValue V key use) e s w Q R ↔
      Act.Sat use e v w (fun a v' w' => Q (some a) (setValue key (V.wrap v') s) w') R := by
  rw [view_eq_map, Option.map_eq_some_iff] at h
  obtain ⟨entry, he, hv⟩ := h
  simp only [entryView, Prod.mk.injEq] at hv
  unfold useValue
  simp only [Act.sat_bind, Act.sat_get, he, Act.sat_expect_some, hv.1, V.unwrap_wrap, Act.sat_zoom,
    Act.sat_pure]
  rfl

theorem unwrap_none_or (V : Variant τ) (x : Value) : V.unwrap x = none ∨ ∃ v, x = V.wrap v := by
  cases h : V.unwrap x with
  | none => exact .inl rfl
  | some v => exact .inr ⟨v, (V.wrap_unwrap h).symm⟩

/-- The rule for `get_or_create_*`: the value found, or a new empty one, is computed on. -/
theorem sat_getOrCreate {Q : Option α → Store → World → Prop} (hR : ∀ p, OutOfRange s p → R p)
    (hwrong : ∀ x d s' w', Later 1 w w' → s.view.liveAt (e.clock w.ticks) key = some (x, d) →
      V.unwrap x = none → s'.view = s.view.expire (e.clock w.ticks) key →
      (Indexed s → Indexed s') → Q none s' w')
    (huse : ∀ v d s' w', Later 1 w w' →
      (s.view.liveAt (e.clock w.ticks) key = some (V.wrap v, d) ∨
        s.view.liveAt (e.clock w.ticks) key = none ∧ v = V.empty ∧ d = none) →
      s'.view = Function.update s.view key (some (V.wrap v, d)) → (Indexed s → Indexed s') →
      Act.Sat use e v w' (fun a v' w'' => Q (some a) (setValue key (V.wrap v') s') w'') R) :
    Act.Sat (getOrCreate V key use) e s w Q R := by
  unfold getOrCreate
  simp only [Act.sat_bind, Act.sat_modify]
  have hbump : (bumpDirty s).view = s.view := rfl
  have hidx : Indexed (bumpDirty s) ↔ Indexed s :=
    ⟨fun h => h.congr rfl rfl rfl, fun h => h.congr rfl rfl rfl⟩
  have hR' : ∀ p, OutOfRange (bumpDirty s) p → R p := fun p hp => hR p ⟨hp.1, fun h => hp.2 (hidx.mpr h)⟩
  refine sat_find hR' ?_ ?_
  · intro s₁ w₁ hw₁ hlive hview₁ hidx₁
    unfold fresh
    simp only [Act.sat_bind, Act.sat_get]
    refine Act.sat_mono minute_spec ?_ (fun _ h => h.elim)
    rintro m s₂ w₂ ⟨rfl, hw₂⟩
    rw [Act.sat_pure]
    refine Act.sat_mono (insertEntry_spec key _) ?_ (fun p hp => hR p ⟨hp.1, fun h => hp.2 (hidx₁ (hidx.mpr h))⟩)
    rintro _ s₃ w₃ ⟨rfl, hview₃, hidx₃⟩
    have hv₃ : s₃.view = Function.update s.view key (some (V.wrap V.empty, none)) := by
      rw [hview₃, hview₁, hbump, update_expire]
    rw [sat_useValue (v := V.empty) (d := none) (by rw [hv₃, Function.update_self])]
    exact huse _ _ _ _ (hw₁.trans hw₂) (.inr ⟨hlive, rfl, rfl⟩) hv₃
      fun h => hidx₃ (hidx₁ (hidx.mpr h))
  · intro entry s₁ w₁ hw₁ hlive hview₁ hidx₁ hlook
    rw [hbump] at hlive hview₁
    rcases unwrap_none_or V entry.value with hnone | ⟨v, hv⟩
    · simp only [hnone, Option.isSome_none, Bool.false_eq_true, if_false, Act.sat_pure]
      exact hwrong _ _ _ _ hw₁ hlive hnone hview₁ fun h => hidx₁ (hidx.mpr h)
    · simp only [hv, V.unwrap_wrap, Option.isSome_some, if_true]
      rw [hv] at hlive
      have hv₁ : s₁.view = Function.update s.view key (some (V.wrap v, entry.expireAt)) := by
        rw [hview₁, expire, hlive]
      rw [sat_useValue (v := v) (d := entry.expireAt) (by rw [hv₁, Function.update_self])]
      exact huse _ _ _ _ hw₁ (.inl hlive) hv₁ fun h => hidx₁ (hidx.mpr h)

/-- The rule for `write_*`: only a value of the right type is computed on. -/
theorem sat_write {Q : Option α → Store → World → Prop} (hR : ∀ p, OutOfRange s p → R p)
    (hother : ∀ s' w', Later 1 w w' →
      (∀ v d, s.view.liveAt (e.clock w.ticks) key ≠ some (V.wrap v, d)) →
      s'.view = s.view.expire (e.clock w.ticks) key → (Indexed s → Indexed s') → Q none s' w')
    (huse : ∀ v d s' w', Later 1 w w' → s.view.liveAt (e.clock w.ticks) key = some (V.wrap v, d) →
      s'.view = s.view.expire (e.clock w.ticks) key → (Indexed s → Indexed s') →
      Act.Sat use e v w' (fun a v' w'' => Q (some a) (setValue key (V.wrap v') s') w'') R) :
    Act.Sat (write V key use) e s w Q R := by
  unfold write
  simp only [Act.sat_bind]
  refine sat_find hR ?_ ?_
  · intro s₁ w₁ hw₁ hlive hview₁ hidx₁
    simp only [Option.any_none, Bool.false_eq_true, if_false, Act.sat_pure]
    exact hother _ _ hw₁ (by simp [hlive]) hview₁ hidx₁
  · intro entry s₁ w₁ hw₁ hlive hview₁ hidx₁ hlook
    rcases unwrap_none_or V entry.value with hnone | ⟨v, hv⟩
    · simp only [Option.any_some, hnone, Option.isSome_none, Bool.false_eq_true, if_false, Act.sat_pure]
      refine hother _ _ hw₁ (fun v d hc => ?_) hview₁ hidx₁
      rw [hlive] at hc
      simp only [Option.some.injEq, Prod.mk.injEq] at hc
      rw [hc.1, V.unwrap_wrap] at hnone
      cases hnone
    · simp only [Option.any_some, hv, V.unwrap_wrap, Option.isSome_some, if_true, Act.sat_bind,
        Act.sat_modify]
      rw [hv] at hlive
      have hv₁ : (bumpDirty s₁).view = s.view.expire (e.clock w.ticks) key := hview₁
      rw [sat_useValue (v := v) (d := entry.expireAt) (by rw [hv₁, expire_self, hlive])]
      exact huse _ _ _ _ hw₁ hlive hv₁ fun h => (hidx₁ h).congr rfl rfl rfl

/-- The rule for `read_*`. -/
theorem sat_read {Q : Option τ → Store → World → Prop} (hR : ∀ p, OutOfRange s p → R p)
    (h : ∀ s' w', Later 1 w w' → s'.view = s.view.expire (e.clock w.ticks) key →
      (Indexed s → Indexed s') →
      Q ((s.view.liveAt (e.clock w.ticks) key).bind fun p => V.unwrap p.1) s' w') :
    Act.Sat (read V key) e s w Q R := by
  unfold read
  simp only [Act.sat_bind]
  refine sat_find hR ?_ ?_
  · intro s₁ w₁ hw₁ hlive hview₁ hidx₁
    rw [Act.sat_pure]
    have := h s₁ w₁ hw₁ hview₁ hidx₁
    rwa [hlive] at this
  · intro entry s₁ w₁ hw₁ hlive hview₁ hidx₁ _
    rw [Act.sat_pure]
    have := h s₁ w₁ hw₁ hview₁ hidx₁
    rwa [hlive] at this

end values

/-- The rule for `get_existing_memory`. -/
theorem sat_existingMemory {α : Type} {key : Bytes} {use : Run Memory α} {R : Panic → Prop}
    {Q : Option α → Store → World → Prop} (hR : ∀ p, OutOfRange s p → R p)
    (hother : ∀ s' w', Later 1 w w' →
      (∀ m d, s.view.liveAt (e.clock w.ticks) key ≠ some (.memory m, d)) →
      s'.view = s.view.expire (e.clock w.ticks) key → (Indexed s → Indexed s') → Q none s' w')
    (huse : ∀ m d s' w', Later 1 w w' → s.view.liveAt (e.clock w.ticks) key = some (.memory m, d) →
      s'.view = s.view.expire (e.clock w.ticks) key → (Indexed s → Indexed s') →
      Act.Sat use e m w' (fun a m' w'' => Q (some a) (setValue key (.memory m') s') w'') R) :
    Act.Sat (existingMemory key use) e s w Q R := by
  unfold existingMemory
  simp only [Act.sat_bind]
  refine sat_find hR ?_ ?_
  · intro s₁ w₁ hw₁ hlive hview₁ hidx₁
    simp only [Option.any_none, Bool.false_eq_true, if_false, Act.sat_pure]
    exact hother _ _ hw₁ (by simp [hlive]) hview₁ hidx₁
  · intro entry s₁ w₁ hw₁ hlive hview₁ hidx₁ hlook
    rcases unwrap_none_or Variant.memory entry.value with hnone | ⟨m, hm⟩
    · simp only [Option.any_some, hnone, Option.isSome_none, Bool.false_eq_true, if_false, Act.sat_pure]
      refine hother _ _ hw₁ (fun m d hc => ?_) hview₁ hidx₁
      rw [hlive] at hc
      simp only [Option.some.injEq, Prod.mk.injEq] at hc
      rw [hc.1] at hnone
      cases hnone
    · simp only [Option.any_some, hm, Variant.memory.unwrap_wrap, Option.isSome_some, if_true]
      rw [hm] at hlive
      rw [sat_useValue (v := m) (d := entry.expireAt) (by rw [hview₁, expire_self, hlive])]
      exact huse _ _ _ _ hw₁ hlive hview₁ hidx₁

/-! ## Mutators -/

section mutators

variable {key : Bytes} {R : Panic → Prop}

theorem OutOfRange.of_indexed {s' : Store} {p : Panic} (h : OutOfRange s' p) (hi : Indexed s → Indexed s') :
    OutOfRange s p :=
  ⟨h.1, fun h' => h.2 (hi h')⟩

/-- `exists`. -/
theorem hasKey_spec (key : Bytes) :
    Act.Sat (hasKey key) e s w
      (fun r s' w' => Later 1 w w' ∧ r = (s.view.liveAt (e.clock w.ticks) key).isSome ∧
        s'.view = s.view.expire (e.clock w.ticks) key ∧ (Indexed s → Indexed s'))
      (OutOfRange s) := by
  unfold hasKey
  simp only [Act.sat_bind, Act.sat_pure]
  refine Act.sat_mono (find_spec key) ?_ (fun _ h => h)
  rintro r s' w' ⟨hw, -, hlive, hview, hidx⟩
  refine ⟨hw, ?_, hview, hidx⟩
  rw [← hlive, Option.isSome_map]

/-- `del`. -/
theorem del_spec (key : Bytes) :
    Act.Sat (del key) e s w
      (fun r s' w' => Later 1 w w' ∧ r = (s.view.liveAt (e.clock w.ticks) key).isSome ∧
        s'.view = Function.update s.view key none ∧ (Indexed s → Indexed s'))
      (OutOfRange s) := by
  unfold del
  simp only [Act.sat_bind]
  refine sat_find (fun _ h => h) ?_ ?_
  · intro s' w' hw hlive hview hidx
    rw [Act.sat_pure]
    refine ⟨hw, by rw [hlive]; rfl, ?_, hidx⟩
    rw [hview, expire, hlive]
  · intro entry s' w' hw hlive hview hidx hlook
    simp only [Act.sat_bind]
    refine Act.sat_mono (removeEntry_spec key) ?_ (fun _ h => h.of_indexed hidx)
    rintro _ s₂ w₂ ⟨rfl, -, hview₂, hidx₂⟩
    simp only [Act.sat_modify, Act.sat_pure]
    refine ⟨hw, by rw [hlive]; rfl, ?_, fun h => (hidx₂ (hidx h)).congr rfl rfl rfl⟩
    refine hview₂.trans ?_
    rw [hview, update_expire]

/-- What `delete_if_empty` leaves at a key. -/
def unlessEmpty : Option (Value × Option SystemTime) → Option (Value × Option SystemTime)
  | some (x, d) => if x.isEmptyCollection then none else some (x, d)
  | none => none

theorem not_empty_of_unlessEmpty {x : Option (Value × Option SystemTime)} {v : Value}
    {d : Option SystemTime} (h : unlessEmpty x = some (v, d)) : v.isEmptyCollection = false := by
  rcases x with _ | ⟨v', d'⟩
  · cases h
  · cases he : v'.isEmptyCollection with
    | true =>
      simp only [unlessEmpty, he, if_true] at h
      cases h
    | false =>
      simp only [unlessEmpty, he, Bool.false_eq_true, if_false, Option.some.injEq,
        Prod.mk.injEq] at h
      rw [← h.1, he]

/-- `delete_if_empty`. -/
theorem deleteIfEmpty_spec (key : Bytes) :
    Act.Sat (deleteIfEmpty key) e s w
      (fun _ s' w' => Later 1 w w' ∧
        s'.view = Function.update s.view key (unlessEmpty (s.view.liveAt (e.clock w.ticks) key)) ∧
        (Indexed s → Indexed s'))
      (OutOfRange s) := by
  unfold deleteIfEmpty
  simp only [Act.sat_bind]
  refine sat_find (fun _ h => h) ?_ ?_
  · intro s' w' hw hlive hview hidx
    simp only [Option.any_none, Bool.false_eq_true, if_false, Act.sat_pure]
    refine ⟨hw, ?_, hidx⟩
    rw [hview, expire, hlive]
    rfl
  · intro entry s' w' hw hlive hview hidx hlook
    simp only [Option.any_some, Act.sat_ite, Act.sat_pure, Act.sat_bind]
    refine ⟨fun hempty => ?_, fun hne => ⟨hw, ?_, hidx⟩⟩
    · refine Act.sat_mono (removeEntry_spec key) ?_ (fun _ h => h.of_indexed hidx)
      rintro _ s₂ w₂ ⟨rfl, -, hview₂, hidx₂⟩
      rw [Act.sat_modify]
      refine ⟨hw, ?_, fun h => (hidx₂ (hidx h)).congr rfl rfl rfl⟩
      refine hview₂.trans ?_
      rw [hview, update_expire, hlive]
      simp [unlessEmpty, hempty]
    · rw [hview, expire, hlive]
      simp [unlessEmpty, hne]

/-- `set_expire_at`. -/
theorem setExpireAt_spec (key : Bytes) (deadline : Option SystemTime) :
    Act.Sat (setExpireAt key deadline) e s w
      (fun r s' w' => Later 1 w w' ∧ r = (s.view.liveAt (e.clock w.ticks) key).isSome ∧
        s'.view = Function.update s.view key
          ((s.view.liveAt (e.clock w.ticks) key).map fun p => (p.1, deadline)) ∧
        (Indexed s → Indexed s'))
      (OutOfRange s) := by
  unfold setExpireAt
  simp only [Act.sat_bind]
  refine sat_find (fun _ h => h) ?_ ?_
  · intro s' w' hw hlive hview hidx
    rw [Act.sat_pure]
    refine ⟨hw, by rw [hlive]; rfl, ?_, hidx⟩
    rw [hview, expire, hlive]
    rfl
  · intro entry s' w' hw hlive hview hidx hlook
    simp only [Act.sat_bind, Act.sat_modify]
    refine Act.sat_mono (setExpiry_spec key deadline) ?_ (fun _ h => h.of_indexed hidx)
    rintro _ s₂ w₂ ⟨rfl, hview₂, hidx₂⟩
    rw [Act.sat_pure]
    refine ⟨hw, by rw [hlive]; rfl, ?_, fun h => (hidx₂ (hidx h)).congr rfl rfl rfl⟩
    refine hview₂.trans ?_
    rw [hview, update_expire, expire_self]

/-- `pttl_ms` reads the clock a second time when there is a deadline. -/
theorem pttlMs_spec (key : Bytes) :
    Act.Sat (pttlMs key) e s w
      (fun r s' w' => s'.view = s.view.expire (e.clock w.ticks) key ∧ (Indexed s → Indexed s') ∧
        (match s.view.liveAt (e.clock w.ticks) key with
          | none => r = -2 ∧ Later 1 w w'
          | some (_, none) => r = -1 ∧ Later 1 w w'
          | some (_, some d) => r = millisLeft d (e.clock (w.ticks + 1)) ∧ Later 2 w w'))
      (OutOfRange s) := by
  unfold pttlMs
  simp only [Act.sat_bind]
  refine sat_find (fun _ h => h) ?_ ?_
  · intro s' w' hw hlive hview hidx
    rw [Act.sat_pure, hlive]
    exact ⟨hview, hidx, rfl, hw⟩
  · intro entry s' w' hw hlive hview hidx hlook
    rw [hlive]
    cases hd : entry.expireAt with
    | none =>
      simp only [hd, Act.sat_pure]
      exact ⟨hview, hidx, trivial, hw⟩
    | some d =>
      simp only [hd, Act.sat_bind, sat_now, Act.sat_pure]
      refine ⟨hview, hidx, ?_, hw.trans (.tick w')⟩
      rw [hw.ticks]

/-- `rename` never finds the key it has just looked up gone. -/
theorem rename_spec (key newKey : Bytes) :
    Act.Sat (rename key newKey) e s w
      (fun r s' w' => Later 1 w w' ∧ r = (s.view.liveAt (e.clock w.ticks) key).isSome ∧
        (Indexed s → Indexed s') ∧
        s'.view = if key = newKey ∨ (s.view.liveAt (e.clock w.ticks) key).isNone then
            s.view.expire (e.clock w.ticks) key
          else Function.update (Function.update s.view key none) newKey
            (s.view.liveAt (e.clock w.ticks) key))
      (OutOfRange s) := by
  unfold rename
  simp only [Act.sat_bind]
  refine sat_find (fun _ h => h) ?_ ?_
  · intro s' w' hw hlive hview hidx
    rw [Act.sat_pure, hlive]
    refine ⟨hw, rfl, hidx, ?_⟩
    rw [hview]
    simp
  · intro entry s' w' hw hlive hview hidx hlook
    simp only [Act.sat_ite, Act.sat_pure, Act.sat_bind, hlive]
    refine ⟨fun hk => ⟨hw, rfl, hidx, by rw [hview]; simp [hk]⟩, fun hk => ?_⟩
    refine Act.sat_mono (removeEntry_spec key) ?_ (fun _ h => h.of_indexed hidx)
    rintro r s₂ w₂ ⟨rfl, hr, hview₂, hidx₂⟩
    rw [hr, hlook, Act.sat_expect_some]
    refine Act.sat_mono (insertEntry_spec newKey entry) ?_
      (fun _ h => h.of_indexed fun h => hidx₂ (hidx h))
    rintro _ s₃ w₃ ⟨rfl, hview₃, hidx₃⟩
    rw [Act.sat_modify]
    refine ⟨hw, rfl, fun h => (hidx₃ (hidx₂ (hidx h))).congr rfl rfl rfl, ?_⟩
    refine hview₃.trans ?_
    rw [hview₂, hview, update_expire]
    simp [hk]

theorem fresh_spec (value : Value) (deadline : Option SystemTime) :
    Act.Sat (fresh value deadline) e s w
      (fun entry s' w' => s' = s ∧ Later 0 w w' ∧ entry.value = value ∧ entry.expireAt = deadline)
      (fun _ => False) := by
  unfold fresh
  simp only [Act.sat_bind, Act.sat_get]
  refine Act.sat_mono minute_spec ?_ (fun _ h => h)
  rintro m s' w' ⟨rfl, hw⟩
  exact ⟨rfl, hw, rfl, rfl⟩

/-- Install a fresh entry. -/
theorem insertFresh_spec (key : Bytes) (value : Value) (deadline : Option SystemTime) :
    Act.Sat (do let entry ← fresh value deadline; insertEntry key entry) e s w
      (fun _ s' w' => Later 0 w w' ∧ s'.view = Function.update s.view key (some (value, deadline)) ∧
        (Indexed s → Indexed s'))
      (OutOfRange s) := by
  rw [Act.sat_bind]
  refine Act.sat_mono (fresh_spec value deadline) ?_ (fun _ h => h.elim)
  rintro entry s₁ w₁ ⟨rfl, hw₁, hv, hd⟩
  refine Act.sat_mono (insertEntry_spec key entry) ?_ (fun _ h => h)
  rintro _ s₂ w₂ ⟨rfl, hview₂, hidx₂⟩
  rw [hv, hd] at hview₂
  exact ⟨hw₁, hview₂, hidx₂⟩

theorem indexed_bumpDirty : Indexed (bumpDirty s) ↔ Indexed s :=
  ⟨fun h => h.congr rfl rfl rfl, fun h => h.congr rfl rfl rfl⟩

theorem view_bumpDirty : (bumpDirty s).view = s.view := rfl

/-- `set_string`. -/
theorem setString_spec (key value : Bytes) :
    Act.Sat (setString key value) e s w
      (fun _ s' w' => Later 0 w w' ∧ s'.view = Function.update s.view key (some (.str value, none)) ∧
        (Indexed s → Indexed s'))
      (OutOfRange s) := by
  unfold setString
  rw [Act.sat_bind, Act.sat_modify]
  refine Act.sat_mono (insertFresh_spec key (.str value) none) ?_
    (fun _ h => h.of_indexed indexed_bumpDirty.mpr)
  rintro _ s₁ w₁ ⟨hw₁, hview₁, hidx₁⟩
  exact ⟨hw₁, hview₁, fun h => hidx₁ (indexed_bumpDirty.mpr h)⟩

/-- `update_string` keeps the deadline of a live key. -/
theorem updateString_spec (key value : Bytes) :
    Act.Sat (updateString key value) e s w
      (fun _ s' w' => Later 1 w w' ∧
        s'.view = Function.update s.view key
          (some (.str value, (s.view.liveAt (e.clock w.ticks) key).bind Prod.snd)) ∧
        (Indexed s → Indexed s'))
      (OutOfRange s) := by
  unfold updateString
  simp only [Act.sat_bind, Act.sat_modify]
  refine sat_find (fun _ h => h.of_indexed indexed_bumpDirty.mpr) ?_ ?_
  · intro s₁ w₁ hw₁ hlive hview₁ hidx₁
    rw [view_bumpDirty] at hlive hview₁
    refine Act.sat_mono (insertFresh_spec key (.str value) none) ?_
      (fun _ h => h.of_indexed fun h => hidx₁ (indexed_bumpDirty.mpr h))
    rintro _ s₂ w₂ ⟨hw₂, hview₂, hidx₂⟩
    refine ⟨hw₁.trans hw₂, ?_, fun h => hidx₂ (hidx₁ (indexed_bumpDirty.mpr h))⟩
    rw [hview₂, hview₁, update_expire, hlive]
    rfl
  · intro entry s₁ w₁ hw₁ hlive hview₁ hidx₁ _
    rw [view_bumpDirty] at hlive hview₁
    refine ⟨hw₁, ?_, fun h => (hidx₁ (indexed_bumpDirty.mpr h)).setValue⟩
    refine view_setValue.trans ?_
    rw [hview₁, expire_self, update_expire, hlive]
    rfl

/-- `create_memory`. -/
theorem createMemory_spec (key : Bytes) (memory : Memory) :
    Act.Sat (createMemory key memory) e s w
      (fun r s' w' => Later 1 w w' ∧ r = (s.view.liveAt (e.clock w.ticks) key).isNone ∧
        (Indexed s → Indexed s') ∧
        s'.view = if (s.view.liveAt (e.clock w.ticks) key).isSome then
            s.view.expire (e.clock w.ticks) key
          else Function.update s.view key (some (.memory memory, none)))
      (OutOfRange s) := by
  unfold createMemory
  simp only [Act.sat_bind]
  refine Act.sat_mono (hasKey_spec key) ?_ (fun _ h => h)
  rintro r s₁ w₁ ⟨hw₁, hr, hview₁, hidx₁⟩
  cases hl : s.view.liveAt (e.clock w.ticks) key with
  | some x =>
    rw [hl] at hr
    simp only [hr, Option.isSome_some, if_true, Act.sat_pure]
    exact ⟨hw₁, rfl, hidx₁, hview₁⟩
  | none =>
    rw [hl] at hr
    simp only [hr, Option.isSome_none, Bool.false_eq_true, if_false, Act.sat_bind, Act.sat_modify]
    have hstep := insertFresh_spec (e := e) (s := bumpDirty s₁) (w := w₁) key (.memory memory) none
    rw [Act.sat_bind] at hstep
    refine Act.sat_mono hstep ?_ (fun _ h => h.of_indexed fun h => indexed_bumpDirty.mpr (hidx₁ h))
    intro entry s₂ w₂ h₂
    refine Act.sat_mono h₂ ?_ (fun _ h => h.of_indexed fun h => indexed_bumpDirty.mpr (hidx₁ h))
    rintro _ s₃ w₃ ⟨hw₃, hview₃, hidx₃⟩
    rw [Act.sat_pure]
    refine ⟨hw₁.trans hw₃, rfl, fun h => hidx₃ (indexed_bumpDirty.mpr (hidx₁ h)), ?_⟩
    rw [hview₃, view_bumpDirty, hview₁, update_expire]

/-- `evict` takes a key away without a lookup. -/
theorem evict_spec (key : Bytes) :
    Act.Sat (evict key) e s w
      (fun r s' w' => w' = w ∧ r = (s.view key).isSome ∧ s'.view = Function.update s.view key none ∧
        (Indexed s → Indexed s'))
      (OutOfRange s) := by
  unfold evict
  simp only [Act.sat_bind]
  refine Act.sat_mono (removeEntry_spec key) ?_ (fun _ h => h)
  rintro r s₁ w₁ ⟨rfl, hr, hview₁, hidx₁⟩
  rw [isSome_view, ← hr]
  cases r with
  | none => exact ⟨rfl, rfl, hview₁, hidx₁⟩
  | some entry => exact ⟨rfl, rfl, hview₁, fun h => indexed_bumpDirty.mpr (hidx₁ h)⟩

/-- A clone leaves the store alone; only a memory index is computed anew. -/
theorem sat_cloneValue {x : Value} {Q : Value → Store → World → Prop}
    (hplain : (∀ m, x ≠ .memory m) → Q x s w)
    (hmemory : ∀ m, x = .memory m → Act.Sat Memory.clone e m w (fun m' _ w' => Q (.memory m') s w') R) :
    Act.Sat (cloneValue x) e s w Q R := by
  cases x with
  | memory m =>
    unfold cloneValue
    simp only [Act.sat_bind, Act.sat_zoom, Act.sat_pure]
    exact hmemory m rfl
  | str _ => exact hplain (by simp)
  | list _ => exact hplain (by simp)
  | hash _ => exact hplain (by simp)
  | set _ => exact hplain (by simp)
  | zset _ => exact hplain (by simp)

theorem sat_copyEntry {dest : Bytes} {Q : Option Bool → Store → World → Prop}
    (hR : ∀ p, OutOfRange s p → R p)
    (hgone : s.view key = none → R (.expect "find() proved it is live"))
    (hcopy : ∀ x d, s.view key = some (x, d) →
      Act.Sat (cloneValue x) e s w (fun x' s' w' => s' = s ∧ ∀ s'',
        s''.view = Function.update s.view dest (some (x', d)) → (Indexed s → Indexed s'') →
        Q (some true) s'' w') R) :
    Act.Sat (copyEntry key dest) e s w Q R := by
  unfold copyEntry
  rw [Act.sat_bind, Act.sat_get]
  cases he : s.map.lookup key with
  | none =>
    rw [Act.sat_bind, Act.sat_expect_none]
    exact hgone (by simp [view, he])
  | some entry =>
    simp only [Act.sat_bind, Act.sat_expect_some]
    refine Act.sat_mono (hcopy entry.value entry.expireAt (by simp [view, he])) ?_ (fun _ h => h)
    rintro x' s' w' ⟨rfl, hQ⟩
    refine Act.sat_mono (insertEntry_spec dest _) ?_ hR
    rintro _ s'' w'' ⟨rfl, hview, hidx⟩
    exact hQ _ hview fun h => indexed_bumpDirty.mpr (hidx h)

/-- The rule for `copy`.  Its `expect` is reached without an entry only when the destination is the
source itself and the second lookup drops it (`hgone`). -/
theorem sat_copy {dest : Bytes} {replace : Bool} {Q : Option Bool → Store → World → Prop}
    (hR : ∀ p, OutOfRange s p → R p)
    (hmiss : ∀ s' w', Later 1 w w' → s.view.liveAt (e.clock w.ticks) key = none →
      s'.view = s.view.expire (e.clock w.ticks) key → (Indexed s → Indexed s') → Q none s' w')
    (htaken : ∀ s' w', Later 2 w w' → replace = false →
      (s.view.liveAt (e.clock w.ticks) key).isSome →
      ((s.view.expire (e.clock w.ticks) key).liveAt (e.clock (w.ticks + 1)) dest).isSome →
      s'.view = (s.view.expire (e.clock w.ticks) key).expire (e.clock (w.ticks + 1)) dest →
      (Indexed s → Indexed s') → Q (some false) s' w')
    (hgone : replace = false → dest = key → (s.view.liveAt (e.clock w.ticks) key).isSome →
      (s.view.expire (e.clock w.ticks) key).liveAt (e.clock (w.ticks + 1)) key = none →
      R (.expect "find() proved it is live"))
    (hcopy : ∀ x d s' w', Later (if replace then 1 else 2) w w' →
      s.view.liveAt (e.clock w.ticks) key = some (x, d) →
      s'.view = (if replace then s.view.expire (e.clock w.ticks) key
        else (s.view.expire (e.clock w.ticks) key).expire (e.clock (w.ticks + 1)) dest) →
      (replace = false → s'.view dest = none ∧ dest ≠ key) →
      (Indexed s → Indexed s') →
      Act.Sat (cloneValue x) e s' w' (fun x' s₁ w'' => s₁ = s' ∧ ∀ s'',
        s''.view = Function.update s'.view dest (some (x', d)) → (Indexed s' → Indexed s'') →
        Q (some true) s'' w'') R) :
    Act.Sat (copy key dest replace) e s w Q R := by
  unfold copy
  simp only [Act.sat_bind]
  refine sat_find hR ?_ ?_
  · intro s₁ w₁ hw₁ hlive hview₁ hidx₁
    rw [Act.sat_pure]
    exact hmiss _ _ hw₁ hlive hview₁ hidx₁
  · intro entry s₁ w₁ hw₁ hlive hview₁ hidx₁ hlook
    have hsome : (s.view.liveAt (e.clock w.ticks) key).isSome = true := by rw [hlive]; rfl
    have hkey₁ : s₁.view key = some (entry.value, entry.expireAt) := by
      rw [hview₁, expire_self, hlive]
    have hR₁ : ∀ p, OutOfRange s₁ p → R p := fun p hp => hR p (hp.of_indexed hidx₁)
    cases replace with
    | true =>
      simp only [if_true, Act.sat_bind, Act.sat_pure, Bool.false_eq_true, if_false]
      refine sat_copyEntry (Q := Q) hR₁ (fun hn => by rw [hn] at hkey₁; cases hkey₁) ?_
      intro x d hx
      rw [hkey₁, Option.some.injEq] at hx
      refine hcopy x d s₁ w₁ hw₁ (hlive.trans ?_) hview₁ (by simp) hidx₁
      rw [hx]
    | false =>
      simp only [Bool.false_eq_true, if_false, Act.sat_bind]
      refine Act.sat_mono (hasKey_spec dest) ?_ hR₁
      rintro taken s₂ w₂ ⟨hw₂, ht, hview₂, hidx₂⟩
      rw [hview₁, hw₁.ticks] at hview₂ ht
      have hidx : Indexed s → Indexed s₂ := fun h => hidx₂ (hidx₁ h)
      cases taken with
      | true =>
        simp only [if_true, Act.sat_pure]
        exact htaken _ _ (hw₁.trans hw₂) rfl hsome ht.symm hview₂ hidx
      | false =>
        simp only [Bool.false_eq_true, if_false]
        have hdest : s₂.view dest = none := by
          rw [hview₂, expire_self]
          simpa using ht.symm
        refine sat_copyEntry (Q := Q) (fun p hp => hR p (hp.of_indexed hidx)) ?_ ?_
        · intro hn
          by_cases hk : dest = key
          · refine hgone rfl hk hsome ?_
            rw [← hk, ← hdest, hview₂, expire_self, hk]
          · rw [hview₂, expire_of_ne (Ne.symm hk), ← hview₁, hkey₁] at hn
            cases hn
        · intro x d hx
          have hk : dest ≠ key := by
            rintro rfl
            rw [hdest] at hx
            cases hx
          rw [hview₂, expire_of_ne (Ne.symm hk), ← hview₁, hkey₁, Option.some.injEq] at hx
          refine hcopy x d s₂ w₂ (hw₁.trans hw₂) (hlive.trans ?_) hview₂ (fun _ => ⟨hdest, hk⟩) hidx
          rw [hx]

end mutators

end Store

end Klyro
