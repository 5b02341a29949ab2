import Mathlib.Data.List.Basic

/-!
# Windows of a flat array

* `window xs start n` — the `n` elements from `start` on.
* `splice xs start ys` — the array with `ys` written over it from `start` on.
* `window_splice_self`, `window_splice_of_disjoint` — what is written is read back, and nothing else
  changes.
-/

set_option autoImplicit false

variable {α : Type}

/-- The elements from `start` on, `n` of them. -/
def window (xs : List α) (start n : Nat) : List α := (xs.drop start).take n

/-- Write `ys` over the array from `start` on. -/
def splice (xs : List α) (start : Nat) (ys : List α) : List α :=
  xs.take start ++ ys ++ xs.drop (start + ys.length)

section splice

variable {xs ys : List α} {start : Nat}

theorem length_splice (h : start + ys.length ≤ xs.length) : (splice xs start ys).length = xs.length := by
  unfold splice
  simp only [List.length_append, List.length_take, List.length_drop]
  omega

theorem getElem?_splice (h : start + ys.length ≤ xs.length) (i : Nat) :
    (splice xs start ys)[i]? = if start ≤ i ∧ i < start + ys.length then ys[i - start]? else xs[i]? := by
  have htake : (xs.take start).length = start := by
    rw [List.length_take]
    omega
  unfold splice
  by_cases hlow : i < start
  · rw [if_neg (by omega), List.append_assoc, List.getElem?_append_left (by omega),
      List.getElem?_take_of_lt hlow]
  · by_cases hmid : i < start + ys.length
    · rw [if_pos (by omega), List.getElem?_append_left (by rw [List.length_append]; omega),
        List.getElem?_append_right (by omega), htake]
    · rw [if_neg (by omega), List.getElem?_append_right (by rw [List.length_append]; omega),
        List.getElem?_drop, List.length_append, htake]
      congr 1
      omega

theorem window_splice_self (h : start + ys.length ≤ xs.length) :
    window (splice xs start ys) start ys.length = ys := by
  have htake : (xs.take start).length = start := by
    rw [List.length_take]
    omega
  unfold window splice
  rw [List.append_assoc, List.drop_left' htake, List.take_left]

/-- **Nothing else changes.** -/
theorem window_splice_of_disjoint {pos n : Nat} (h : start + ys.length ≤ xs.length)
    (hdisjoint : pos + n ≤ start ∨ start + ys.length ≤ pos) :
    window (splice xs start ys) pos n = window xs pos n := by
  unfold window
  apply List.ext_getElem?
  intro i
  by_cases hi : i < n
  · rw [List.getElem?_take_of_lt hi, List.getElem?_take_of_lt hi, List.getElem?_drop,
      List.getElem?_drop, getElem?_splice h, if_neg (by omega)]
  · rw [List.getElem?_take_eq_none (by omega), List.getElem?_take_eq_none (by omega)]

end splice

/-- Different slots of one width are apart. -/
theorem slots_apart {s s' width : Nat} (h : s' ≠ s) :
    s' * width + width ≤ s * width ∨ s * width + width ≤ s' * width := by
  rcases Nat.lt_or_gt_of_ne h with hlt | hgt
  · left
    rw [← Nat.succ_mul]
    exact Nat.mul_le_mul_right width hlt
  · right
    rw [← Nat.succ_mul]
    exact Nat.mul_le_mul_right width hgt
