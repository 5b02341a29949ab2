import Klyro.Types.Memory.Record

/-!
# The metadata of a record (`types/memory/record.rs`)

* `InOrder` — the fields stand in order, none of them twice; every change keeps that.
* `search_present`, `search_absent` — where the binary search ends.
* `valueOf` — what a field is set to; `setMetaAll_spec` says what writing pairs does to it.
* `setMetaAll_perm` — different fields may be written in any order.
-/

set_option autoImplicit false

namespace Klyro

/-- Pairs in the order of their fields, without a repeated one. -/
def InOrder (pairs : List (Bytes × Bytes)) : Prop := pairs.Pairwise fun p q => cmpBytes p.1 q.1 = .lt

/-- The value of a field. -/
def valueOf (pairs : List (Bytes × Bytes)) (field : Bytes) : Option Bytes :=
  (pairs.find? fun p => p.1 = field).map Prod.snd

section pairs

variable {low high pairs : List (Bytes × Bytes)} {field value : Bytes}

/-- Pairs cut at a field. -/
structure CutAt (low high : List (Bytes × Bytes)) (field : Bytes) : Prop where
  below : ∀ p ∈ low, cmpBytes p.1 field = .lt
  above : ∀ p ∈ high, cmpBytes p.1 field = .gt

theorem cmpBytes_gt {a b : Bytes} : cmpBytes a b = .gt ↔ cmpBytes b a = .lt := by
  rw [← cmpBytes_swap a b]
  cases cmpBytes a b <;> decide

theorem exists_cut (h : InOrder pairs) (field : Bytes) :
    ∃ low high, CutAt low high field ∧
      (pairs = low ++ high ∨ ∃ value, pairs = low ++ (field, value) :: high) := by
  induction pairs with
  | nil => exact ⟨[], [], ⟨fun _ hp => (by cases hp), fun _ hp => (by cases hp)⟩, .inl rfl⟩
  | cons p pairs ih =>
    obtain ⟨hfirst, hrest⟩ := List.pairwise_cons.mp h
    cases hp : cmpBytes p.1 field with
    | lt =>
      obtain ⟨low, high, hcut, hpairs⟩ := ih hrest
      refine ⟨p :: low, high, ⟨fun q hq => ?_, hcut.above⟩, ?_⟩
      · rcases List.mem_cons.mp hq with rfl | hq
        · exact hp
        · exact hcut.below q hq
      · rcases hpairs with rfl | ⟨value, rfl⟩
        · exact .inl rfl
        · exact .inr ⟨value, rfl⟩
    | eq =>
      have heq := cmpBytes_eq _ _ hp
      refine ⟨[], pairs, ⟨fun _ hp => (by cases hp), fun q hq => ?_⟩, .inr ⟨p.2, ?_⟩⟩
      · rw [← heq, cmpBytes_gt]
        exact hfirst q hq
      · rw [← heq]
        rfl
    | gt =>
      refine ⟨[], p :: pairs, ⟨fun _ hp => (by cases hp), fun q hq => ?_⟩, .inl rfl⟩
      rcases List.mem_cons.mp hq with rfl | hq
      · exact hp
      · rw [cmpBytes_gt] at hp ⊢
        exact cmpBytes_trans hp (hfirst q hq)

theorem CutAt.insert (h : CutAt low high field) (hlow : InOrder low) (hhigh : InOrder high) :
    InOrder (low ++ (field, value) :: high) := by
  unfold InOrder at hlow hhigh ⊢
  rw [List.pairwise_append, List.pairwise_cons]
  refine ⟨hlow, ⟨fun p hp => cmpBytes_gt.mp (h.above p hp), hhigh⟩, fun p hp q hq => ?_⟩
  rcases List.mem_cons.mp hq with rfl | hq
  · exact h.below p hp
  · exact cmpBytes_trans (h.below p hp) (cmpBytes_gt.mp (h.above q hq))

/-! ## The search -/

theorem search_absent (h : CutAt low high field) :
    binarySearchBy (fun p => cmpBytes p.1 field) (low ++ high) = .error low.length := by
  have hsplit : SplitAt (fun p : Bytes × Bytes => cmpBytes p.1 field != .gt) (low ++ high)
      low.length := by
    refine ⟨by rw [List.length_append]; omega, fun i p hp => ?_⟩
    by_cases hi : i < low.length
    · rw [List.getElem?_append_left hi] at hp
      have hlt := h.below p (List.mem_of_getElem? hp)
      simp [hlt, hi]
    · rw [List.getElem?_append_right (not_lt.mp hi)] at hp
      have hgt := h.above p (List.mem_of_getElem? hp)
      simp [hgt, hi]
  cases hlow : low.length with
  | zero =>
    rw [hlow] at hsplit
    exact binarySearchBy_past hsplit
  | succ i =>
    rw [hlow] at hsplit
    have hi : i < low.length := by omega
    have hget : (low ++ high)[i]? = some low[i] := by
      rw [List.getElem?_append_left hi, List.getElem?_eq_getElem hi]
    rw [binarySearchBy_succ hsplit hget, if_neg]
    rw [h.below _ (List.getElem_mem hi)]
    decide

theorem search_present (h : CutAt low high field) :
    binarySearchBy (fun p => cmpBytes p.1 field) (low ++ (field, value) :: high) = .ok low.length := by
  have hsplit : SplitAt (fun p : Bytes × Bytes => cmpBytes p.1 field != .gt)
      (low ++ (field, value) :: high) (low.length + 1) := by
    refine ⟨by rw [List.length_append, List.length_cons]; omega, fun i p hp => ?_⟩
    rcases lt_trichotomy i low.length with hi | rfl | hi
    · rw [List.getElem?_append_left hi] at hp
      have hlt := h.below p (List.mem_of_getElem? hp)
      have hi' : i < low.length + 1 := by omega
      simp [hlt, hi']
    · rw [List.getElem?_append_right le_rfl, Nat.sub_self, List.getElem?_cons_zero,
        Option.some.injEq] at hp
      subst hp
      simp [cmpBytes_self]
    · rw [List.getElem?_append_right (by omega)] at hp
      obtain ⟨k, hk⟩ : ∃ k, i - low.length = k + 1 := ⟨i - low.length - 1, by omega⟩
      rw [hk, List.getElem?_cons_succ] at hp
      have hgt := h.above p (List.mem_of_getElem? hp)
      have hi' : ¬ i < low.length + 1 := by omega
      simp [hgt, hi']
  have hget : (low ++ (field, value) :: high)[low.length]? = some (field, value) := by
    rw [List.getElem?_append_right le_rfl, Nat.sub_self]
    rfl
  rw [binarySearchBy_succ hsplit hget, if_pos (cmpBytes_self field)]

theorem valueOf_append_cons (h : CutAt low high field) (k : Bytes) :
    valueOf (low ++ (field, value) :: high) k =
      if k = field then some value else valueOf (low ++ high) k := by
  unfold valueOf
  rw [List.find?_append, List.find?_append, List.find?_cons]
  by_cases hk : k = field
  · subst hk
    have hlow : low.find? (fun p => p.1 = k) = none := by
      rw [List.find?_eq_none]
      intro p hp
      have hlt := h.below p hp
      simp only [decide_eq_true_eq]
      rintro rfl
      rw [cmpBytes_self] at hlt
      cases hlt
    rw [hlow, if_pos rfl]
    simp
  · have hne : ¬ field = k := fun heq => hk heq.symm
    rw [if_neg hk]
    simp [hne]

theorem valueOf_cut (h : CutAt low high field) : valueOf (low ++ high) field = none := by
  unfold valueOf
  rw [Option.map_eq_none_iff, List.find?_eq_none]
  intro p hp
  simp only [decide_eq_true_eq]
  rintro rfl
  rcases List.mem_append.mp hp with hp | hp
  · have hlt := h.below p hp
    rw [cmpBytes_self] at hlt
    cases hlt
  · have hgt := h.above p hp
    rw [cmpBytes_self] at hgt
    cases hgt

theorem insertIdx_cut (p : Bytes × Bytes) : ∀ low : List (Bytes × Bytes),
    (low ++ high).insertIdx low.length p = low ++ p :: high
  | [] => rfl
  | q :: low => by
    rw [List.cons_append, List.length_cons, List.insertIdx_succ_cons, insertIdx_cut p low,
      List.cons_append]

theorem modify_cut (f : Bytes × Bytes → Bytes × Bytes) (p : Bytes × Bytes) :
    ∀ low : List (Bytes × Bytes), (low ++ p :: high).modify low.length f = low ++ f p :: high
  | [] => rfl
  | q :: low => by
    rw [List.cons_append, List.length_cons, List.modify_succ_cons, modify_cut f p low,
      List.cons_append]

end pairs

/-! ## Changes of a record -/

namespace MemoryRecord

variable {r : MemoryRecord} {field value : Bytes}

theorem getMeta_eq (h : InOrder r.metadata) (field : Bytes) :
    r.getMeta field = valueOf r.metadata field := by
  obtain ⟨low, high, hcut, hpairs | ⟨value, hpairs⟩⟩ := exists_cut h field
  · unfold getMeta
    rw [hpairs, search_absent hcut, valueOf_cut hcut]
  · unfold getMeta
    rw [hpairs, search_present hcut, valueOf_append_cons hcut, if_pos rfl]
    dsimp only
    rw [List.getElem?_append_right le_rfl, Nat.sub_self]
    rfl

/-- **A write of one field**: the fields stay in order, and the others keep their values. -/
theorem setMeta_spec (h : InOrder r.metadata) (field value : Bytes) :
    InOrder (r.setMeta field value).2.metadata ∧
      ∀ k, valueOf (r.setMeta field value).2.metadata k =
        if k = field then some value else valueOf r.metadata k := by
  obtain ⟨low, high, hcut, hpairs⟩ := exists_cut h field
  have hparts : InOrder low ∧ InOrder high := by
    unfold InOrder at h ⊢
    rcases hpairs with hpairs | ⟨old, hpairs⟩
    · rw [hpairs, List.pairwise_append] at h
      exact ⟨h.1, h.2.1⟩
    · rw [hpairs, List.pairwise_append, List.pairwise_cons] at h
      exact ⟨h.1, h.2.1.2⟩
  have hwritten : (r.setMeta field value).2.metadata = low ++ (field, value) :: high := by
    unfold setMeta
    rcases hpairs with hpairs | ⟨old, hpairs⟩
    · rw [hpairs, search_absent hcut]
      exact insertIdx_cut _ _
    · rw [hpairs, search_present hcut]
      exact modify_cut _ _ _
  rw [hwritten]
  refine ⟨hcut.insert hparts.1 hparts.2, fun k => ?_⟩
  rw [valueOf_append_cons hcut]
  by_cases hk : k = field
  · rw [if_pos hk, if_pos hk]
  · rw [if_neg hk, if_neg hk]
    rcases hpairs with hpairs | ⟨old, hpairs⟩
    · rw [hpairs]
    · rw [hpairs, valueOf_append_cons hcut, if_neg hk]

/-- A later pair for the same field decides. -/
def lastValue (pairs : List (Bytes × Bytes)) (field : Bytes) : Option Bytes :=
  valueOf pairs.reverse field

theorem lastValue_cons (p : Bytes × Bytes) (pairs : List (Bytes × Bytes)) (field : Bytes) :
    lastValue (p :: pairs) field =
      (lastValue pairs field).or (if field = p.1 then some p.2 else none) := by
  unfold lastValue valueOf
  rw [List.reverse_cons, List.find?_append]
  cases pairs.reverse.find? fun q => q.1 = field with
  | some q => rfl
  | none =>
    by_cases hp : field = p.1
    · simp [hp]
    · have hne : ¬ p.1 = field := fun h => hp h.symm
      simp [hp, hne]

/-- **Writing pairs**: a field that is among them has its last value, every other keeps its own. -/
theorem setMetaAll_spec : ∀ (pairs : List (Bytes × Bytes)) {r : MemoryRecord}, InOrder r.metadata →
    InOrder (setMetaAll pairs r).2.metadata ∧ ∀ k, valueOf (setMetaAll pairs r).2.metadata k =
      (lastValue pairs k).or (valueOf r.metadata k)
  | [], _, h => ⟨h, fun _ => rfl⟩
  | (field, value) :: pairs, r, h => by
    obtain ⟨horder, hvalue⟩ := setMeta_spec h field value
    obtain ⟨hordered, hvalues⟩ := setMetaAll_spec pairs horder
    refine ⟨hordered, fun k => ?_⟩
    rw [show (setMetaAll ((field, value) :: pairs) r).2 =
      (setMetaAll pairs (r.setMeta field value).2).2 from rfl, hvalues, lastValue_cons, hvalue]
    cases lastValue pairs k with
    | some v => rfl
    | none =>
      by_cases hk : k = field
      · simp [hk]
      · simp [hk]

theorem setMetaAll_eq : ∀ (pairs : List (Bytes × Bytes)) (r : MemoryRecord),
    (setMetaAll pairs r).2 = { r with metadata := (setMetaAll pairs r).2.metadata }
  | [], _ => rfl
  | (field, value) :: pairs, r => by
    have hone : (r.setMeta field value).2 =
        { r with metadata := (r.setMeta field value).2.metadata } := by
      unfold setMeta
      split <;> rfl
    have hrest := setMetaAll_eq pairs (r.setMeta field value).2
    rw [show (setMetaAll ((field, value) :: pairs) r).2 =
      (setMetaAll pairs (r.setMeta field value).2).2 from rfl, hrest, hone]

theorem removeMetaAll_eq : ∀ (fields : List Bytes) (r : MemoryRecord),
    (removeMetaAll fields r).2 = { r with metadata := (removeMetaAll fields r).2.metadata }
  | [], _ => rfl
  | field :: fields, r => by
    have hone : (r.removeMeta field).2 = { r with metadata := (r.removeMeta field).2.metadata } := by
      unfold removeMeta
      split <;> rfl
    have hrest := removeMetaAll_eq fields (r.removeMeta field).2
    rw [show (removeMetaAll (field :: fields) r).2 = (removeMetaAll fields (r.removeMeta field).2).2
      from rfl, hrest, hone]

theorem lastValue_eq_none {pairs : List (Bytes × Bytes)} {field : Bytes} :
    lastValue pairs field = none ↔ field ∉ pairs.map Prod.fst := by
  unfold lastValue valueOf
  rw [Option.map_eq_none_iff, List.find?_eq_none, List.mem_map]
  constructor
  · rintro h ⟨p, hp, rfl⟩
    simpa using h p (List.mem_reverse.mpr hp)
  · intro h p hp
    simp only [decide_eq_true_eq]
    rintro rfl
    exact h ⟨p, List.mem_reverse.mp hp, rfl⟩

theorem valueOf_eq_none {pairs : List (Bytes × Bytes)} {field : Bytes} :
    valueOf pairs field = none ↔ ∀ p ∈ pairs, p.1 ≠ field := by
  unfold valueOf
  rw [Option.map_eq_none_iff, List.find?_eq_none]
  simp only [decide_eq_true_eq, ne_eq]

theorem removeMeta_inOrder (h : InOrder r.metadata) (field : Bytes) :
    InOrder (r.removeMeta field).2.metadata := by
  unfold removeMeta
  split
  · exact List.Pairwise.sublist (List.eraseIdx_sublist _ _) h
  · exact h

theorem removeMetaAll_inOrder : ∀ (fields : List Bytes) {r : MemoryRecord}, InOrder r.metadata →
    InOrder (removeMetaAll fields r).2.metadata
  | [], _, h => h
  | field :: fields, _, h => removeMetaAll_inOrder fields (removeMeta_inOrder h field)

end MemoryRecord

/-! ## The order of the fields -/

section orders

variable {pairs xs ys : List (Bytes × Bytes)} {field value : Bytes}

theorem valueOf_eq_some (h : (pairs.map Prod.fst).Nodup) :
    valueOf pairs field = some value ↔ (field, value) ∈ pairs := by
  unfold valueOf
  rw [Option.map_eq_some_iff]
  constructor
  · rintro ⟨p, hp, rfl⟩
    have hfield : p.1 = field := by simpa using List.find?_some hp
    rw [← hfield]
    exact List.mem_of_find?_eq_some hp
  · intro hmem
    cases hfind : pairs.find? fun p => p.1 = field with
    | none =>
      have hne := List.find?_eq_none.mp hfind (field, value) hmem
      simp at hne
    | some p =>
      have hfield : p.1 = field := by simpa using List.find?_some hfind
      refine ⟨p, rfl, ?_⟩
      have hp := List.mem_of_find?_eq_some hfind
      rw [List.inj_on_of_nodup_map h hp hmem hfield]

theorem InOrder.nodup (h : InOrder pairs) : (pairs.map Prod.fst).Nodup := by
  refine List.pairwise_map.mpr (List.Pairwise.imp ?_ h)
  intro p q hlt heq
  rw [heq, cmpBytes_self] at hlt
  cases hlt

/-- Pairs in order are determined by the values of their fields. -/
theorem InOrder.ext (hx : InOrder xs) (hy : InOrder ys)
    (h : ∀ field, valueOf xs field = valueOf ys field) : xs = ys := by
  have hperm : xs.Perm ys := by
    refine (List.perm_ext_iff_of_nodup hx.nodup.of_map hy.nodup.of_map).mpr fun p => ?_
    obtain ⟨field, value⟩ := p
    rw [← valueOf_eq_some hx.nodup, ← valueOf_eq_some hy.nodup, h]
  refine hperm.eq_of_pairwise ?_ hx hy
  intro p q _ _ hpq hqp
  rw [← cmpBytes_swap, hqp] at hpq
  cases hpq

theorem lastValue_perm (hperm : xs.Perm ys) (hnodup : (xs.map Prod.fst).Nodup) (field : Bytes) :
    MemoryRecord.lastValue xs field = MemoryRecord.lastValue ys field := by
  have hys : (ys.map Prod.fst).Nodup := (hperm.map Prod.fst).nodup_iff.mp hnodup
  unfold MemoryRecord.lastValue
  refine Option.ext fun value => ?_
  rw [valueOf_eq_some, valueOf_eq_some, List.mem_reverse, List.mem_reverse, hperm.mem_iff]
  · rwa [List.map_reverse, List.nodup_reverse]
  · rwa [List.map_reverse, List.nodup_reverse]

/-- **Different fields may be written in any order.** -/
theorem setMetaAll_perm {r : MemoryRecord} (h : InOrder r.metadata) (hperm : xs.Perm ys)
    (hnodup : (xs.map Prod.fst).Nodup) :
    (MemoryRecord.setMetaAll xs r).2 = (MemoryRecord.setMetaAll ys r).2 := by
  obtain ⟨hx, hxs⟩ := MemoryRecord.setMetaAll_spec xs h
  obtain ⟨hy, hys⟩ := MemoryRecord.setMetaAll_spec ys h
  have hmetadata := hx.ext hy fun field => by
    rw [hxs, hys, lastValue_perm hperm hnodup]
  rw [MemoryRecord.setMetaAll_eq xs r, hmetadata, ← MemoryRecord.setMetaAll_eq ys r]

end orders

end Klyro
