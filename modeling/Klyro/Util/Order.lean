import Klyro.Util.Bytes

/-!
# Total orders behind the comparators

The source compares with closures.  Where no NaN is met each of them orders by a number and then by a
byte string, and that is a total order.

* `cmpBytes` is one (`TransCmp`, `LawfulEqCmp`).
* `cmpRanked` — by a number, then by a byte string.
* `cmpFloat_key` — what `cmpFloat` compares when there is no NaN.
* `sortBy_pairwise`, `sortBy_eq_of_perm`, `sortBy_filter`, `sortBy_congr` — sorting by a total order.
-/

set_option autoImplicit false

namespace Klyro

/-! ## Byte strings -/

instance : Std.OrientedCmp cmpBytes where
  eq_swap {a b} := (cmpBytes_swap b a).symm

instance : Std.LawfulEqCmp cmpBytes where
  eq_of_compare {a b} := cmpBytes_eq a b

instance : Std.TransCmp cmpBytes where
  isLE_trans {a b c} hab hbc := by
    cases h : cmpBytes a b with
    | lt =>
      cases h' : cmpBytes b c with
      | lt => rw [cmpBytes_trans h h']; rfl
      | eq => rw [← cmpBytes_eq b c h', h]; rfl
      | gt => rw [h'] at hbc; cases hbc
    | eq => rw [cmpBytes_eq a b h]; exact hbc
    | gt => rw [h] at hab; cases hab

/-! ## Numbers, then byte strings -/

/-- By number, then by name. -/
def cmpRanked : Int × Bytes → Int × Bytes → Ordering :=
  compareLex (compareOn Prod.fst) fun a b => cmpBytes a.2 b.2

theorem cmpRanked_eq (a b : Int × Bytes) :
    cmpRanked a b = (compare a.1 b.1).then (cmpBytes a.2 b.2) := rfl

instance : Std.TransCmp fun a b : Int × Bytes => cmpBytes a.2 b.2 where
  eq_swap := Std.OrientedCmp.eq_swap
  isLE_trans := Std.TransCmp.isLE_trans

instance : Std.TransCmp cmpRanked := inferInstanceAs (Std.TransCmp (compareLex _ _))

instance : Std.LawfulEqCmp cmpRanked where
  eq_of_compare {a b} h := by
    rw [cmpRanked_eq, Ordering.then_eq_eq] at h
    exact Prod.ext (Std.LawfulEqCmp.eq_of_compare h.1) (cmpBytes_eq _ _ h.2)

/-- What is ranked is compared by its rank. -/
instance {α : Type} (rank : α → Int × Bytes) :
    Std.TransCmp fun a b => cmpRanked (rank a) (rank b) where
  eq_swap := Std.OrientedCmp.eq_swap
  isLE_trans := Std.TransCmp.isLE_trans

/-- The larger key comes first. -/
instance transCmpDescending {α β : Type} [LinearOrder β] (key : α → β) :
    Std.TransCmp fun a b => compare (key b) (key a) where
  eq_swap := Std.OrientedCmp.eq_swap
  isLE_trans hab hbc := Std.TransCmp.isLE_trans hbc hab

theorem isNan_of_isFinite {f : Format} {x : SoftFloat f} (h : x.isFinite = true) :
    x.isNan = false := by
  unfold SoftFloat.isFinite at h
  have := of_decide_eq_true h
  exact decide_eq_false (by omega)

/-- Where there is no NaN, extended reals are compared. -/
theorem cmpFloat_key {f : Format} {x y : SoftFloat f} (hx : x.isNan = false) (hy : y.isNan = false) :
    cmpFloat x y = compare x.key y.key := by
  unfold cmpFloat SoftFloat.partialCmp
  rw [hx, hy]
  rfl

/-! ## Sorting -/

section sorting

variable {α : Type} {cmp cmp' : α → α → Ordering} {xs ys : List α}

theorem sortBy_perm (cmp : α → α → Ordering) (xs : List α) : (sortBy cmp xs).Perm xs :=
  List.perm_insertionSort _ xs

theorem mem_sortBy {a : α} : a ∈ sortBy cmp xs ↔ a ∈ xs := (sortBy_perm cmp xs).mem_iff

/-- The result is in order. -/
theorem sortBy_pairwise [Std.TransCmp cmp] (xs : List α) :
    (sortBy cmp xs).Pairwise fun a b => cmp a b ≠ .gt := by
  have htotal : Std.Total fun a b => cmp a b ≠ .gt := ⟨fun a b => by
    cases h : cmp a b with
    | lt => exact .inl (by decide)
    | eq => exact .inl (by decide)
    | gt => exact .inr (by rw [Std.OrientedCmp.lt_of_gt h]; decide)⟩
  have htrans : IsTrans α fun a b => cmp a b ≠ .gt := ⟨fun a b c hab hbc =>
    Ordering.isLE_iff_ne_gt.mp (Std.TransCmp.isLE_trans (Ordering.isLE_iff_ne_gt.mpr hab)
      (Ordering.isLE_iff_ne_gt.mpr hbc))⟩
  exact List.pairwise_insertionSort _ xs

theorem eq_of_ne_gt [Std.OrientedCmp cmp] {a b : α} (hab : cmp a b ≠ .gt) (hba : cmp b a ≠ .gt) :
    cmp a b = .eq := by
  cases h : cmp a b with
  | lt => exact absurd (Std.OrientedCmp.gt_of_lt h) hba
  | eq => rfl
  | gt => exact absurd h hab

theorem sortBy_map {β : Type} {cmp : β → β → Ordering} (f : α → β) (xs : List α) :
    sortBy cmp (xs.map f) = (sortBy (fun a b => cmp (f a) (f b)) xs).map f :=
  (List.map_insertionSort _ _ f xs fun _ _ _ _ => Iff.rfl).symm

/-- Only the elements count, not how they arrive. -/
theorem sortBy_eq_of_perm [Std.TransCmp cmp] (h : xs.Perm ys)
    (hties : ∀ a ∈ xs, ∀ b ∈ xs, cmp a b = .eq → a = b) : sortBy cmp xs = sortBy cmp ys := by
  have hperm : (sortBy cmp xs).Perm (sortBy cmp ys) :=
    (sortBy_perm cmp xs).trans (h.trans (sortBy_perm cmp ys).symm)
  refine hperm.eq_of_pairwise ?_ (sortBy_pairwise xs) (sortBy_pairwise ys)
  intro a b ha hb hab hba
  exact hties a (mem_sortBy.mp ha) b (h.mem_iff.mpr (mem_sortBy.mp hb)) (eq_of_ne_gt hab hba)

/-- What is left of a sorted list is sorted. -/
theorem sortBy_filter [Std.TransCmp cmp] (hties : ∀ a ∈ xs, ∀ b ∈ xs, cmp a b = .eq → a = b)
    (p : α → Bool) : sortBy cmp (xs.filter p) = (sortBy cmp xs).filter p := by
  have hperm : (sortBy cmp (xs.filter p)).Perm ((sortBy cmp xs).filter p) :=
    (sortBy_perm cmp _).trans ((sortBy_perm cmp xs).symm.filter p)
  refine hperm.eq_of_pairwise ?_ (sortBy_pairwise _) ((sortBy_pairwise xs).filter p)
  intro a b ha hb hab hba
  have ha' := (List.mem_filter.mp (mem_sortBy.mp ha)).1
  have hb' := mem_sortBy.mp (List.mem_filter.mp hb).1
  exact hties a ha' b hb' (eq_of_ne_gt hab hba)

theorem orderedInsert_congr {r r' : α → α → Prop} [DecidableRel r] [DecidableRel r'] {a : α}
    (h : ∀ b ∈ xs, r a b ↔ r' a b) : xs.orderedInsert r a = xs.orderedInsert r' a := by
  induction xs with
  | nil => rfl
  | cons b xs ih =>
    have hb := h b (List.mem_cons_self ..)
    have htail := ih fun b hb => h b (List.mem_cons_of_mem _ hb)
    rw [List.orderedInsert_cons, List.orderedInsert_cons, htail]
    exact if_congr hb rfl rfl

/-- Two comparators that agree on the elements sort them alike. -/
theorem sortBy_congr (h : ∀ a ∈ xs, ∀ b ∈ xs, cmp a b = cmp' a b) :
    sortBy cmp xs = sortBy cmp' xs := by
  induction xs with
  | nil => rfl
  | cons a xs ih =>
    have htail := ih fun a ha b hb => h a (List.mem_cons_of_mem _ ha) b (List.mem_cons_of_mem _ hb)
    show (sortBy cmp xs).orderedInsert _ a = (sortBy cmp' xs).orderedInsert _ a
    rw [htail]
    refine orderedInsert_congr fun b hb => ?_
    rw [h a (List.mem_cons_self ..) b (List.mem_cons_of_mem _ (mem_sortBy.mp hb))]

end sorting

end Klyro
