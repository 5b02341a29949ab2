import Klyro.Types.List
import Klyro.Util.Order

/-!
# Removing occurrences (`LREM`)

* `dropFirst` — a list without the first `n` occurrences of a value.
* `foldr_positions`, `foldr_drop_positions` — deleting by position, the highest first, deletes the
  elements that were at these positions.
* `remove_exact` — `list::remove` deletes from the head, from the tail or throughout, as its count
  says, and keeps the rest in order.
-/

set_option autoImplicit false

namespace Klyro

namespace ListValue

variable {value : Bytes}

/-- The list without the first `n` occurrences of `value`. -/
def dropFirst (value : Bytes) : Nat → List Bytes → List Bytes
  | _, [] => []
  | 0, l => l
  | n + 1, x :: l => if x = value then dropFirst value n l else x :: dropFirst value (n + 1) l

/-- What `LREM` is to leave: `count` counts from the head, from the tail when it is negative, and zero
stands for every occurrence. -/
def without (count : Int) (value : Bytes) (l : List Bytes) : List Bytes :=
  if count = 0 then l.filter (· ≠ value)
  else if count < 0 then (dropFirst value count.natAbs l.reverse).reverse
  else dropFirst value count.natAbs l

theorem dropFirst_zero : ∀ l : List Bytes, dropFirst value 0 l = l
  | [] => rfl
  | _ :: _ => rfl

/-! ## Positions -/

theorem positions_cons (x : Bytes) (l : List Bytes) : positions (x :: l) value =
    if x = value then 0 :: (positions l value).map Nat.succ
    else (positions l value).map Nat.succ := by
  unfold positions
  rw [List.zipIdx_cons, List.zipIdx_succ, List.filter_cons, List.filter_map]
  by_cases hx : x = value
  · simp [hx, Function.comp_def]
  · simp [hx, Function.comp_def]

theorem length_positions : ∀ l : List Bytes, (positions l value).length = l.count value
  | [] => rfl
  | x :: l => by
    have ih := length_positions l
    rw [positions_cons, List.count_cons]
    by_cases hx : x = value
    · simp [hx, ih]
    · simp [hx, ih]

/-- Positions come in ascending order. -/
theorem positions_sorted : ∀ l : List Bytes, (positions l value).Pairwise (· < ·)
  | [] => List.Pairwise.nil
  | x :: l => by
    have htail : ((positions l value).map Nat.succ).Pairwise (· < ·) :=
      (positions_sorted l).map _ fun _ _ h => Nat.succ_lt_succ h
    rw [positions_cons]
    split
    · refine List.pairwise_cons.mpr ⟨fun i hi => ?_, htail⟩
      obtain ⟨j, -, rfl⟩ := List.mem_map.mp hi
      exact Nat.succ_pos j
    · exact htail

/-- Deleting behind the first element leaves it. -/
theorem foldr_succ (x : Bytes) (l : List Bytes) : ∀ ps : List Nat,
    (ps.map Nat.succ).foldr (fun i l => l.eraseIdx i) (x :: l) =
      x :: ps.foldr (fun i l => l.eraseIdx i) l
  | [] => rfl
  | p :: ps => by
    rw [List.map_cons, List.foldr_cons, List.foldr_cons, foldr_succ x l ps]
    rfl

/-- Deleting the first positions deletes the first occurrences. -/
theorem foldr_positions : ∀ (l : List Bytes) (n : Nat),
    ((positions l value).take n).foldr (fun i l => l.eraseIdx i) l = dropFirst value n l
  | [], n => by
    rw [show positions [] value = [] from rfl, List.take_nil]
    cases n <;> rfl
  | x :: l, 0 => rfl
  | x :: l, n + 1 => by
    rw [positions_cons, dropFirst]
    split
    · rw [List.take_succ_cons, List.foldr_cons, ← List.map_take, foldr_succ, foldr_positions l n]
      rfl
    · rw [← List.map_take, foldr_succ, foldr_positions l (n + 1)]

/-! ## Counting from the tail -/

theorem dropFirst_append (value : Bytes) : ∀ (n : Nat) (l m : List Bytes),
    dropFirst value n (l ++ m) = dropFirst value n l ++ dropFirst value (n - l.count value) m
  | n, [], m => by
    rw [List.nil_append, List.count_nil, Nat.sub_zero, show dropFirst value n [] = [] by cases n <;> rfl]
    rfl
  | 0, x :: l, m => by
    rw [dropFirst_zero, dropFirst_zero, Nat.zero_sub, dropFirst_zero]
  | n + 1, x :: l, m => by
    rw [List.cons_append, dropFirst, dropFirst, dropFirst_append value n l m,
      dropFirst_append value (n + 1) l m]
    by_cases hx : x = value
    · rw [if_pos hx, if_pos hx, hx, List.count_cons_self, Nat.add_sub_add_right]
    · rw [if_neg hx, if_neg hx, List.count_cons_of_ne hx, List.cons_append]

/-- Deleting the last positions deletes the last occurrences. -/
theorem foldr_drop_positions (n : Nat) : ∀ l : List Bytes,
    ((positions l value).drop (l.count value - n)).foldr (fun i l => l.eraseIdx i) l =
      (dropFirst value n l.reverse).reverse
  | [] => by
    rw [show positions [] value = [] from rfl, List.drop_nil, List.reverse_nil]
    cases n <;> rfl
  | x :: l => by
    have ih := foldr_drop_positions n l
    rw [List.reverse_cons, dropFirst_append, List.reverse_append, ← ih, List.count_reverse,
      positions_cons]
    by_cases hx : x = value
    · rw [if_pos hx, hx, List.count_cons_self]
      by_cases hn : l.count value < n
      · -- this occurrence is among the last ones, and so are all behind it
        have h0 : l.count value + 1 - n = 0 := by omega
        have h0' : l.count value - n = 0 := by omega
        obtain ⟨k, hk⟩ : ∃ k, n - l.count value = k + 1 := ⟨n - l.count value - 1, by omega⟩
        rw [h0, h0', hk, List.drop_zero, List.drop_zero, List.foldr_cons, foldr_succ, dropFirst,
          if_pos rfl]
        cases k <;> rfl
      · have hsucc : l.count value + 1 - n = (l.count value - n) + 1 := by omega
        have hzero : n - l.count value = 0 := by omega
        rw [hsucc, hzero, List.drop_succ_cons, ← List.map_drop, foldr_succ, dropFirst_zero]
        rfl
    · rw [if_neg hx, List.count_cons_of_ne hx, ← List.map_drop, foldr_succ]
      cases hk : n - l.count value with
      | zero => rfl
      | succ k =>
        rw [dropFirst, if_neg hx]
        rfl

/-! ## The removal -/

theorem dropFirst_all : ∀ (n : Nat) (l : List Bytes), l.count value ≤ n →
    dropFirst value n l = l.filter (· ≠ value)
  | n, [], _ => by cases n <;> rfl
  | 0, x :: l, h => by
    have hnone : ∀ y ∈ x :: l, decide (y ≠ value) = true := fun y hy => by
      refine decide_eq_true fun hyv => ?_
      rw [hyv] at hy
      exact absurd (List.count_pos_iff.mpr hy) (by omega)
    rw [dropFirst_zero, List.filter_eq_self.mpr hnone]
  | n + 1, x :: l, h => by
    rw [dropFirst]
    by_cases hx : x = value
    · rw [hx, List.count_cons_self] at h
      rw [if_pos hx, List.filter_cons_of_neg (by simp [hx]), dropFirst_all n l (by omega)]
    · rw [List.count_cons_of_ne hx] at h
      rw [if_neg hx, List.filter_cons_of_pos (by simp [hx]), dropFirst_all (n + 1) l h]

/-- Sorting positions to the highest first turns them round. -/
theorem sortBy_descending {ps : List Nat} (h : ps.Pairwise (· < ·)) :
    sortBy (fun a b => compare b a) ps = ps.reverse := by
  have hperm : (sortBy (fun a b : Nat => compare b a) ps).Perm ps.reverse :=
    (sortBy_perm _ _).trans (List.reverse_perm ps).symm
  refine hperm.eq_of_pairwise (fun a b _ _ hab hba => ?_) (sortBy_pairwise ps)
    ((List.pairwise_reverse.mpr h).imp fun hab => ?_)
  · have heq : compare b a = .eq := @eq_of_ne_gt Nat (fun a b => compare b a) _ a b hab hba
    exact (compare_eq_iff_eq.mp heq).symm
  · intro hgt
    rw [compare_gt_iff_gt] at hgt
    omega

/-- **`LREM` removes exactly the right occurrences**, and says how many. -/
theorem remove_exact (list : ListValue) (hlen : list.length ≤ u64Max) (count : Int) (value : Bytes) :
    list.remove count value =
      (if count = 0 then list.count value else min count.natAbs (list.count value),
        without count value list) := by
  have hsorted : (positions list value).Pairwise (· < ·) := positions_sorted list
  have hfold : ∀ ps : List Nat, ps.reverse.foldl (fun l i => l.eraseIdx i) list =
      ps.foldr (fun i l => l.eraseIdx i) list := fun ps => List.foldl_reverse
  unfold remove without
  dsimp only
  by_cases h0 : count = 0
  · have hcount : list.count value ≤ u64Max := List.count_le_length.trans hlen
    have htake : (positions list value).take u64Max = positions list value :=
      List.take_of_length_le (by rw [length_positions]; exact hcount)
    have hall : ((positions list value).take u64Max).foldr (fun i l => l.eraseIdx i) list =
        dropFirst value u64Max list := foldr_positions list u64Max
    rw [htake, dropFirst_all _ _ hcount] at hall
    rw [if_pos h0, if_pos h0, if_pos h0, if_neg (by omega), htake, sortBy_descending hsorted,
      List.length_reverse, length_positions, hfold, hall]
  · rw [if_neg h0, if_neg h0, if_neg h0]
    by_cases hneg : count < 0
    · have hlast : ((positions list value).reverse.take count.natAbs) =
          ((positions list value).drop (list.count value - count.natAbs)).reverse := by
        rw [List.take_reverse, length_positions]
      have hdesc : sortBy (fun a b => compare b a)
          ((positions list value).drop (list.count value - count.natAbs)).reverse =
          ((positions list value).drop (list.count value - count.natAbs)).reverse := by
        have hties : ∀ a ∈ ((positions list value).drop (list.count value - count.natAbs)).reverse,
            ∀ b ∈ ((positions list value).drop (list.count value - count.natAbs)).reverse,
            (compare b a : Ordering) = .eq → a = b := fun a _ b _ hab =>
          (compare_eq_iff_eq.mp hab).symm
        rw [sortBy_eq_of_perm (List.reverse_perm _) hties]
        exact sortBy_descending (hsorted.sublist (List.drop_sublist _ _))
      rw [if_pos hneg, if_pos hneg, hlast, hdesc, hfold, foldr_drop_positions, List.length_reverse,
        List.length_drop, length_positions]
      refine Prod.ext ?_ rfl
      show list.count value - (list.count value - count.natAbs) = min count.natAbs (list.count value)
      omega
    · rw [if_neg hneg, if_neg hneg,
        sortBy_descending (hsorted.sublist (List.take_sublist _ _)), List.length_reverse,
        List.length_take, length_positions, hfold, foldr_positions]

/-- Two of three, from the tail. -/
theorem remove_exact_tail : (ListValue.remove [[1], [2], [1], [1]] (-2) [1]) =
    (if (-2 : Int) = 0 then List.count [1] [[1], [2], [1], [1]]
      else min (-2 : Int).natAbs (List.count [1] [[1], [2], [1], [1]]),
      without (-2) [1] [[1], [2], [1], [1]]) :=
  remove_exact [[1], [2], [1], [1]] (by decide) (-2) [1]

end ListValue

end Klyro
