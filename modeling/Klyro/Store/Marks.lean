import Klyro.Store.Glances

/-!
# What counts as a change

* `Store.stored` — what a dump would hold: values, deadlines, memory indexes but for the counter
  their ids are taken from.
* `Marked` — an operation that changes what is stored has counted it in `dirty`.
* `Bumps` — a write: it counts a change whether or not it makes one.
-/

set_option autoImplicit false

namespace Klyro

/-- A value but for the counter of a memory index. -/
def Value.stored : Value → Value
  | .memory m => .memory { m with nextId := 0 }
  | x => x

namespace Store

variable {α β τ : Type} {s s' s'' : Store} {key : Bytes}

/-- The stored keyspace. -/
def stored (s : Store) : Keyspace := fun key => (s.view key).map fun p => (p.1.stored, p.2)

/-- **A change is counted.** -/
structure Marked (s s' : Store) : Prop where
  le : s.dirty ≤ s'.dirty
  same : s'.dirty = s.dirty → s'.stored = s.stored

instance : IsPreorder Store Marked where
  refl _ := ⟨le_rfl, fun _ => rfl⟩
  trans _ _ _ h h' := by
    refine ⟨h.le.trans h'.le, fun hsame => ?_⟩
    have h₁ := h.le
    have h₂ := h'.le
    rw [h'.same (by omega), h.same (by omega)]

theorem Marked.of_lt (h : s.dirty < s'.dirty) : Marked s s' :=
  ⟨le_of_lt h, fun hsame => absurd hsame (by omega)⟩

theorem stored_of_view (h : s'.view = s.view) : s'.stored = s.stored := by
  unfold stored
  rw [h]

theorem Glances.marked (h : Glances s s') : Marked s s' := by
  have hcounted := h.counted
  have hexpired := h.expired
  refine ⟨by omega, fun hsame => ?_⟩
  exact stored_of_view (h.same (by omega))

/-! ## Counting -/

/-- No change is forgotten. -/
def Rises (s s' : Store) : Prop := s.dirty ≤ s'.dirty

instance : IsPreorder Store Rises where
  refl _ := le_rfl
  trans _ _ _ := Nat.le_trans

/-- A computation that counts a change. -/
def Bumps (m : Run Store α) : Prop :=
  ∀ e s w, Act.Sat m e s w (fun _ s' _ => s.dirty < s'.dirty) (fun _ => True)

theorem Bumps.marks {m : Run Store α} (h : Bumps m) : Act.Within Marked m :=
  fun e s w => Act.sat_mono (h e s w) (fun _ _ _ => .of_lt) (fun _ h => h)

theorem rises_of_glances {m : Run Store α} (h : Act.Within Glances m) : Act.Within Rises m :=
  h.mono fun _ _ h => h.marked.le

theorem rises_of_counts {m : Run Store α} (h : Act.Preserves counts m) : Act.Within Rises m :=
  fun e s w => Act.sat_mono (h e s w) (fun _ _ _ hc => (Prod.mk.inj hc).1.ge) (fun _ h => h)

theorem bumps_bumpDirty : Bumps (Act.modify bumpDirty) := fun _ _ _ => Nat.lt_succ_self _

theorem bumps_panic (p : Panic) : Bumps (Act.panic p : Run Store α) := fun _ _ _ => trivial

/-- A change may be counted before it is made. -/
theorem bumps_first {m : Run Store α} {f : α → Run Store β} (hm : Bumps m)
    (hf : ∀ a, Act.Within Rises (f a)) : Bumps (m >>= f) := by
  intro e s w
  rw [Act.sat_bind]
  refine Act.sat_mono (hm e s w) ?_ (fun _ h => h)
  intro a s' w' hlt
  exact Act.sat_mono (hf a e s' w') (fun _ _ _ h => Nat.lt_of_lt_of_le hlt h) (fun _ h => h)

/-- Or afterwards. -/
theorem bumps_last {m : Run Store α} {f : α → Run Store β} (hm : Act.Within Rises m)
    (hf : ∀ a, Bumps (f a)) : Bumps (m >>= f) := by
  intro e s w
  rw [Act.sat_bind]
  refine Act.sat_mono (hm e s w) ?_ (fun _ h => h)
  intro a s' w' hle
  exact Act.sat_mono (hf a e s' w') (fun _ _ _ h => Nat.lt_of_le_of_lt hle h) (fun _ h => h)

/-! ## Writes -/

theorem marks_of_glances {m : Run Store α} (h : Act.Within Glances m) : Act.Within Marked m :=
  h.mono fun _ _ h => h.marked

theorem markDirty_bumps : Bumps markDirty := bumps_bumpDirty

theorem insertFresh_rises (key : Bytes) (value : Value) (deadline : Option SystemTime) :
    Act.Within Rises (do
      let entry ← fresh value deadline
      insertEntry key entry) :=
  Act.within_bind (rises_of_counts (counts_fresh _ _)) fun _ => rises_of_counts (counts_insertEntry _ _)

theorem setString_marks (key value : Bytes) : Act.Within Marked (setString key value) :=
  (bumps_first bumps_bumpDirty fun _ => insertFresh_rises _ _ _).marks

theorem updateString_marks (key value : Bytes) : Act.Within Marked (updateString key value) := by
  refine (bumps_first bumps_bumpDirty fun _ => ?_).marks
  refine Act.within_bind (rises_of_glances (find_glances key)) fun found => ?_
  split
  · exact Act.within_modify fun _ => le_rfl
  · exact insertFresh_rises _ _ _

theorem del_marks (key : Bytes) : Act.Within Marked (del key) := by
  refine Act.within_bind (marks_of_glances (find_glances key)) fun found => ?_
  split
  · exact Act.within_pure _
  · refine (bumps_last (rises_of_counts (counts_removeEntry key)) fun _ => ?_).marks
    exact bumps_first bumps_bumpDirty fun _ => Act.within_pure _

theorem deleteIfEmpty_marks (key : Bytes) : Act.Within Marked (deleteIfEmpty key) := by
  refine Act.within_bind (marks_of_glances (find_glances key)) fun found => ?_
  refine Act.within_ite ?_ (Act.within_pure _)
  exact (bumps_last (rises_of_counts (counts_removeEntry key)) fun _ => bumps_bumpDirty).marks

theorem setExpireAt_marks (key : Bytes) (deadline : Option SystemTime) :
    Act.Within Marked (setExpireAt key deadline) := by
  refine Act.within_bind (marks_of_glances (find_glances key)) fun found => ?_
  split
  · refine (bumps_last (Act.within_modify ?_) fun _ => ?_).marks
    · exact fun _ => le_rfl
    · refine bumps_last (rises_of_counts (counts_syncVolatile key)) fun _ => ?_
      exact bumps_first bumps_bumpDirty fun _ => Act.within_pure _
  · exact Act.within_pure _

theorem rename_marks (key newKey : Bytes) : Act.Within Marked (rename key newKey) := by
  refine Act.within_bind (marks_of_glances (find_glances key)) fun found => ?_
  split
  · exact Act.within_pure _
  · refine Act.within_ite (Act.within_pure _) ?_
    refine (bumps_last (rises_of_counts (counts_removeEntry key)) fun _ => ?_).marks
    refine bumps_last (Act.within_expect _ _) fun entry => ?_
    refine bumps_last (rises_of_counts (counts_insertEntry newKey entry)) fun _ => ?_
    exact bumps_first bumps_bumpDirty fun _ => Act.within_pure _

theorem cloneValue_rises (x : Value) : Act.Within Rises (cloneValue x) := by
  intro e s w
  refine sat_cloneValue (fun _ => le_rfl) fun m _ => ?_
  exact Act.sat_mono (Act.sat_true _) (fun _ _ _ _ => le_rfl) (fun _ h => h)

theorem copyEntry_marks (key dest : Bytes) : Act.Within Marked (copyEntry key dest) := by
  refine (bumps_last Act.within_get fun s => ?_).marks
  refine bumps_last (Act.within_expect _ _) fun entry => ?_
  refine bumps_last (cloneValue_rises _) fun value => ?_
  refine bumps_last (rises_of_counts (counts_insertEntry dest _)) fun _ => ?_
  exact bumps_first bumps_bumpDirty fun _ => Act.within_pure _

theorem copy_marks (key dest : Bytes) (replace : Bool) : Act.Within Marked (copy key dest replace) := by
  refine Act.within_bind (marks_of_glances (find_glances key)) fun found => ?_
  split
  · exact Act.within_pure _
  · have hrest : ∀ taken : Bool, Act.Within Marked
        (if taken then pure (some false) else copyEntry key dest) :=
      fun taken => Act.within_ite (Act.within_pure _) (copyEntry_marks key dest)
    refine Act.within_ite ?_ ?_
    · exact Act.within_bind (Act.within_pure _) hrest
    · exact Act.within_bind (marks_of_glances (hasKey_glances dest)) hrest

theorem flush_marks : Act.Within Marked flush := fun _ s _ => .of_lt (Nat.lt_succ_self s.dirty)

theorem createMemory_marks (key : Bytes) (memory : Memory) :
    Act.Within Marked (createMemory key memory) := by
  refine Act.within_bind (marks_of_glances (hasKey_glances key)) fun taken => ?_
  refine Act.within_ite (Act.within_pure _) ?_
  refine (bumps_first bumps_bumpDirty fun _ => ?_).marks
  refine Act.within_bind (rises_of_counts (counts_fresh _ _)) fun entry => ?_
  exact Act.within_bind (rises_of_counts (counts_insertEntry _ _)) fun _ => Act.within_pure _

theorem getOrCreate_marks (V : Variant τ) (key : Bytes) (use : Run τ α) :
    Act.Within Marked (getOrCreate V key use) := by
  refine (bumps_first bumps_bumpDirty fun _ => ?_).marks
  refine Act.within_bind (rises_of_glances (find_glances key)) fun found => ?_
  have huse := rises_of_counts (counts_useValue V key use)
  split
  · exact Act.within_ite huse (Act.within_pure _)
  · refine Act.within_bind (rises_of_counts (counts_fresh _ _)) fun entry => ?_
    exact Act.within_bind (rises_of_counts (counts_insertEntry _ _)) fun _ => huse

theorem write_marks (V : Variant τ) (key : Bytes) (use : Run τ α) :
    Act.Within Marked (write V key use) := by
  refine Act.within_bind (marks_of_glances (find_glances key)) fun found => ?_
  refine Act.within_ite ?_ (Act.within_pure _)
  exact (bumps_first bumps_bumpDirty fun _ => rises_of_counts (counts_useValue V key use)).marks

/-- An index edited in place counts no change of its own: what leaves the records as they were is
all it may do uncounted. -/
theorem existingMemory_edits {e : Env} {w : World} {use : Run Memory α} {P : α → Prop}
    (huse : ∀ e m w, Act.Sat use e m w (fun a m' _ => P a →
      (Value.memory m').stored = (Value.memory m).stored) (fun _ => True)) :
    Act.Sat (existingMemory key use) e s w (fun found s' _ => Rises s s' ∧
      ((∀ a, found = some a → P a) → Marked s s')) (fun _ => True) := by
  unfold existingMemory
  rw [Act.sat_bind]
  refine Act.sat_mono (find_glances key e s w) ?_ (fun _ h => h)
  intro found s₁ w₁ hfound
  split
  · have hstored : Act.Sat (useValue .memory key use) e s₁ w₁
        (fun found s' _ => (∀ a, found = some a → P a) → s'.stored = s₁.stored) (fun _ => True) := by
      refine sat_useMemory fun m d hview => Act.sat_mono (huse e m w₁) ?_ (fun _ h => h)
      intro a m' w' hsame hP
      funext k
      unfold stored
      rw [view_setValue]
      by_cases hk : k = key
      · rw [hk, Function.update_self, hview, Option.map_some, Option.map_some, Option.map_some,
          hsame (hP a rfl)]
      · rw [Function.update_of_ne hk]
    refine Act.sat_mono (Act.sat_and (counts_useValue .memory key use e s₁ w₁) hstored) ?_
      (fun _ _ => trivial)
    rintro a s' w' ⟨hcounts, hsame⟩
    have hdirty : s'.dirty = s₁.dirty := (Prod.mk.inj hcounts).1
    have hle : s.dirty ≤ s₁.dirty := hfound.marked.le
    refine ⟨hle.trans hdirty.ge, fun hP => ?_⟩
    exact trans_of Marked hfound.marked ⟨hdirty.ge, fun _ => hsame hP⟩
  · exact ⟨hfound.marked.le, fun _ => hfound.marked⟩

theorem evict_marks (key : Bytes) : Act.Within Marked (evict key) := by
  intro e s w
  unfold evict
  rw [Act.sat_bind]
  refine Act.sat_mono (Act.sat_and (removeEntry_spec key) (counts_removeEntry key e s w)) ?_
    (fun _ _ => trivial)
  rintro found s' w' ⟨⟨-, hfound, hview, -⟩, hcounts⟩
  have hdirty : s'.dirty = s.dirty := (Prod.mk.inj hcounts).1
  cases found with
  | none =>
    refine ⟨hdirty.ge, fun _ => stored_of_view ?_⟩
    have hnone : s.view key = none := by rw [view_eq_map, ← hfound, Option.map_none]
    rw [hview, ← hnone, Function.update_eq_self]
  | some entry =>
    rw [Act.sat_bind, Act.sat_modify, Act.sat_pure]
    apply Marked.of_lt
    show s.dirty < s'.dirty + 1
    omega

/-- A sweep counts each key it takes away. -/
theorem sweepExpired_marks : Act.Within Marked sweepExpired := by
  refine Act.within_bind (marks_of_glances now_glances) fun t => Act.within_bind Act.within_get fun s => ?_
  refine Act.within_forList (fun key => Bumps.marks ?_) _
  refine bumps_last (rises_of_counts (counts_removeEntry key)) fun _ => ?_
  exact fun _ s _ => Nat.lt_succ_self s.dirty

end Store

end Klyro
