import Klyro.Store.Spec

/-!
# Lookups and the dirty counter

A store counts its changes in `dirty` and the keys it found due in `expired`.

* `counts_removeEntry`, `counts_insertEntry`, .. — the steps that leave both counters alone.
* `Glances` — what lookups do: every change they make is a key that expired, and is counted.
* `find_glances`, `peekType_glances`, .. — the lookups.
-/

set_option autoImplicit false

namespace Klyro

namespace Store

open Keyspace

variable {α τ : Type} {e : Env} {s s' s'' : Store} {w : World} {key : Bytes}

/-- The counters of changes. -/
def counts (s : Store) : Nat × Nat := (s.dirty, s.expired)

/-! ## Steps that count nothing -/

theorem counts_detachVolatile (slot : Nat) : Act.Preserves counts (detachVolatile slot) := by
  intro e s w
  unfold detachVolatile
  rw [Act.sat_bind, Act.sat_get]
  split
  · trivial
  · rfl

theorem counts_syncVolatile (key : Bytes) : Act.Preserves counts (syncVolatile key) := by
  intro e s w
  unfold syncVolatile
  rw [Act.sat_bind, Act.sat_get]
  split
  · rfl
  · split
    · rfl
    · rw [Act.sat_bind, Act.sat_set]
      exact Act.sat_mono (counts_detachVolatile _ e _ w) (fun _ _ _ h => h) (fun _ h => h)
    · rfl

theorem counts_insertEntry (key : Bytes) (entry : Entry) :
    Act.Preserves counts (insertEntry key entry) := by
  intro e s w
  unfold insertEntry
  rw [Act.sat_bind, Act.sat_get]
  cases s.map.lookup key with
  | none =>
    rw [Act.sat_bind, Act.sat_set]
    exact counts_syncVolatile key e _ w
  | some previous =>
    rw [Act.sat_bind, Act.sat_set]
    exact counts_syncVolatile key e _ w

theorem counts_removeEntry (key : Bytes) : Act.Preserves counts (removeEntry key) := by
  intro e s w
  unfold removeEntry
  rw [Act.sat_bind, Act.sat_get]
  split
  · rfl
  · split
    · trivial
    · rw [Act.sat_bind, Act.sat_set]
      split
      · rw [Act.sat_bind]
        exact counts_detachVolatile _ e _ w
      · rfl

theorem counts_minute : Act.Preserves counts minute := fun _ _ _ => rfl

theorem counts_fresh (value : Value) (deadline : Option SystemTime) :
    Act.Preserves counts (fresh value deadline) := fun _ _ _ => rfl

theorem counts_touch (key : Bytes) : Act.Preserves counts (touch key) := by
  refine Act.preserves_bind (Act.preserves_modify fun _ => rfl) fun _ => ?_
  refine Act.preserves_bind counts_minute fun m => Act.preserves_bind Act.preserves_get fun s => ?_
  split
  · exact Act.preserves_pure _
  · refine Act.preserves_bind ?_ fun _ => Act.preserves_modify fun _ => rfl
    intro e s w
    exact Act.sat_mono (recordHit_spec _ _ _) (fun _ _ _ h => congrArg counts h.1) (fun _ h => h.elim)

theorem counts_useValue (V : Variant τ) (key : Bytes) (use : Run τ α) :
    Act.Preserves counts (useValue V key use) := by
  refine Act.preserves_bind Act.preserves_get fun s => ?_
  refine Act.preserves_bind ?_ fun entry => Act.preserves_bind ?_ fun v => Act.preserves_bind ?_ fun _ =>
    Act.preserves_pure _
  · cases s.map.lookup key with
    | none => exact Act.preserves_panic _
    | some entry => exact Act.preserves_pure entry
  · cases V.unwrap entry.value with
    | none => exact Act.preserves_panic _
    | some v => exact Act.preserves_pure v
  · exact Act.preserves_zoom fun _ _ => rfl

/-! ## Lookups -/

/-- **What lookups do.**  A key stays or goes; if one goes it expired, and both counters grow by
the number that did. -/
structure Glances (s s' : Store) : Prop where
  kept : ∀ k, s'.view k = s.view k ∨ s'.view k = none
  counted : s'.dirty + s.expired = s.dirty + s'.expired
  expired : s.expired ≤ s'.expired
  same : s'.expired = s.expired → s'.view = s.view

theorem Glances.refl (s : Store) : Glances s s := ⟨fun _ => .inl rfl, rfl, le_rfl, fun _ => rfl⟩

theorem Glances.trans (h : Glances s s') (h' : Glances s' s'') : Glances s s'' where
  kept k := by
    rcases h'.kept k with hk | hk
    · rw [hk]
      exact h.kept k
    · exact .inr hk
  counted := by
    have h₁ := h.counted
    have h₂ := h'.counted
    omega
  expired := h.expired.trans h'.expired
  same hsame := by
    have h₁ := h.expired
    have h₂ := h'.expired
    rw [h'.same (by omega), h.same (by omega)]

instance : IsPreorder Store Glances where
  refl := Glances.refl
  trans _ _ _ := Glances.trans

/-- A step that changes neither the view nor the counters. -/
theorem Glances.of_same (hview : s'.view = s.view) (hcounts : counts s' = counts s) : Glances s s' := by
  obtain ⟨hd, he⟩ := Prod.mk.inj hcounts
  exact ⟨fun k => .inl (congrFun hview k), by omega, by omega, fun _ => hview⟩

theorem expireIfDue_glances (key : Bytes) : Act.Within Glances (expireIfDue key) := by
  intro e s w
  unfold expireIfDue
  simp only [Act.sat_bind, sat_now, Act.sat_get, Act.sat_ite, Act.sat_pure]
  refine ⟨fun _ => ?_, fun _ => .refl s⟩
  refine Act.sat_mono (Act.sat_and (removeEntry_spec key) (counts_removeEntry key e s _)) ?_
    (fun _ _ => trivial)
  rintro _ s' w' ⟨⟨-, -, hview, -⟩, hcounts⟩
  obtain ⟨hd, he⟩ := Prod.mk.inj hcounts
  rw [Act.sat_modify]
  constructor
  · intro k
    show s'.view k = s.view k ∨ s'.view k = none
    rw [hview]
    by_cases hk : k = key
    · right
      rw [hk, Function.update_self]
    · left
      rw [Function.update_of_ne hk]
  · show s'.dirty + 1 + s.expired = s.dirty + (s'.expired + 1)
    omega
  · show s.expired ≤ s'.expired + 1
    omega
  · intro hsame
    have hsame' : s'.expired + 1 = s.expired := hsame
    omega

theorem touch_glances (key : Bytes) : Act.Within Glances (touch key) := by
  intro e s w
  refine Act.sat_mono (Act.sat_and (touch_spec key) (counts_touch key e s w)) ?_ (fun _ _ => trivial)
  rintro _ s' w' ⟨⟨-, hview, -⟩, hcounts⟩
  exact .of_same hview hcounts

/-- **`find`** is a lookup. -/
theorem find_glances (key : Bytes) : Act.Within Glances (find key) := by
  refine Act.within_bind (expireIfDue_glances key) fun _ => Act.within_bind Act.within_get fun s => ?_
  have hrest : Act.Within Glances (do
      let s ← Act.get
      pure (s.map.lookup key) : Run Store (Option Entry)) := Act.within_bind Act.within_get fun _ => Act.within_pure _
  refine Act.within_bind (Act.within_modify fun s => ?_) fun _ => ?_
  · unfold account
    split <;> exact .of_same rfl rfl
  · exact Act.within_ite (Act.within_bind (touch_glances key) fun _ => hrest) hrest

theorem peekType_glances (key : Bytes) : Act.Within Glances (peekType key) :=
  Act.within_bind (expireIfDue_glances key) fun _ => Act.within_bind Act.within_get fun _ =>
    Act.within_pure _

theorem hasKey_glances (key : Bytes) : Act.Within Glances (hasKey key) :=
  Act.within_bind (find_glances key) fun _ => Act.within_pure _

theorem typeOf_glances (key : Bytes) : Act.Within Glances (typeOf key) :=
  Act.within_bind (find_glances key) fun _ => Act.within_pure _

theorem hasExpiry_glances (key : Bytes) : Act.Within Glances (hasExpiry key) :=
  Act.within_bind (find_glances key) fun _ => Act.within_pure _

theorem getString_glances (key : Bytes) : Act.Within Glances (getString key) :=
  Act.within_bind (find_glances key) fun _ => Act.within_pure _

theorem read_glances (V : Variant τ) (key : Bytes) : Act.Within Glances (read V key) :=
  Act.within_bind (find_glances key) fun _ => Act.within_pure _

theorem now_glances : Act.Within Glances now := Act.within_of_same fun _ _ _ => rfl

theorem pttlMs_glances (key : Bytes) : Act.Within Glances (pttlMs key) := by
  refine Act.within_bind (find_glances key) fun found => ?_
  split
  · exact Act.within_pure _
  · split
    · exact Act.within_pure _
    · exact Act.within_bind now_glances fun _ => Act.within_pure _

theorem ttl_glances (key : Bytes) : Act.Within Glances (ttl key) :=
  Act.within_bind (pttlMs_glances key) fun _ => Act.within_pure _

/-- A use of the index under a key, if there is one. -/
theorem sat_useMemory {e : Env} {s : Store} {w : World} {use : Run Memory α}
    {Q : Option α → Store → World → Prop}
    (huse : ∀ m d, s.view key = some (.memory m, d) →
      Act.Sat use e m w (fun a m' w' => Q (some a) (setValue key (.memory m') s) w') (fun _ => True)) :
    Act.Sat (useValue .memory key use) e s w Q (fun _ => True) := by
  cases hentry : s.map.lookup key with
  | none =>
    unfold useValue
    rw [Act.sat_bind, Act.sat_get, Act.sat_bind, hentry]
    trivial
  | some entry =>
    cases hvalue : Variant.memory.unwrap entry.value with
    | none =>
      unfold useValue
      rw [Act.sat_bind, Act.sat_get, Act.sat_bind, hentry, Act.sat_expect_some, Act.sat_bind, hvalue]
      trivial
    | some m =>
      have hsame : entry.value = .memory m := (Variant.memory.wrap_unwrap hvalue).symm
      have hview : s.view key = some (.memory m, entry.expireAt) := by
        rw [view_eq_map, hentry, ← hsame]
        rfl
      exact (sat_useValue (V := .memory) hview).mpr (huse m _ hview)

/-- A memory index that is only looked at. -/
theorem existingMemory_glances {use : Run Memory α}
    (huse : ∀ e m w, Act.Sat use e m w (fun _ m' _ => m' = m) (fun _ => True)) :
    Act.Within Glances (existingMemory key use) := by
  refine Act.within_bind (find_glances key) fun found => ?_
  refine Act.within_ite ?_ (Act.within_pure _)
  intro e s w
  have hview : Act.Sat (useValue .memory key use) e s w (fun _ s' _ => s'.view = s.view)
      (fun _ => True) := by
    refine sat_useMemory fun m d hview => Act.sat_mono (huse e m w) ?_ (fun _ h => h)
    rintro a m' w' rfl
    rw [view_setValue, hview, Option.map_some, ← hview, Function.update_eq_self]
  refine Act.sat_mono (Act.sat_and (counts_useValue .memory key use e s w) hview) ?_ (fun _ _ => trivial)
  rintro _ s' _ ⟨hcounts, hsame⟩
  exact .of_same hsame hcounts

end Store

end Klyro
