import Mathlib.Data.List.Sort

/-!
# A list, page by page

A reader asks for a page, is told where the next one starts, and stops when that is `0`.

* `page` — the elements of a page and the start of the next.
* `page_last`, `page_next` — a page ends the list, or the next one goes on where it stops.
* `slice_page` — the same by the end of the page, cut off at the length of the list.
-/

set_option autoImplicit false

namespace Klyro

section paging

variable {α : Type} {xs : List α} {start count : Nat}

/-- `count` elements from `start` on, and where to go on: `0` at the end. -/
def page (xs : List α) (start count : Nat) : List α × Nat :=
  ((xs.drop start).take count, if xs.length ≤ start + count then 0 else start + count)

theorem page_last (h : xs.length ≤ start + count) : page xs start count = (xs.drop start, 0) := by
  unfold page
  rw [if_pos h, List.take_of_length_le]
  rw [List.length_drop]
  omega

theorem page_next (h : start + count < xs.length) :
    (page xs start count).2 = start + count ∧
      (page xs start count).1 ++ xs.drop (start + count) = xs.drop start := by
  unfold page
  rw [if_neg (not_le.mpr h)]
  refine ⟨rfl, ?_⟩
  rw [← List.drop_drop]
  exact List.take_append_drop _ _

theorem page_nil (h : xs.length ≤ start) : page xs start count = ([], 0) := by
  rw [page_last (h.trans (Nat.le_add_right _ _)), List.drop_eq_nil_of_le h]

/-- A page by its end. -/
theorem slice_page {stop : Nat} (hstop : stop = min (start + count) xs.length) :
    ((xs.take stop).drop start, if xs.length ≤ stop then 0 else stop) = page xs start count := by
  unfold page
  refine Prod.ext ?_ ?_
  · dsimp only
    rw [List.drop_take, hstop]
    by_cases hend : start + count ≤ xs.length
    · rw [Nat.min_eq_left hend, Nat.add_sub_cancel_left]
    · rw [Nat.min_eq_right (not_le.mp hend).le, List.take_of_length_le, List.take_of_length_le]
      · rw [List.length_drop]
        omega
      · rw [List.length_drop]
  · dsimp only
    by_cases hend : xs.length ≤ start + count
    · rw [if_pos hend, if_pos (by omega)]
    · rw [if_neg hend, if_neg (by omega)]
      omega

end paging

end Klyro
