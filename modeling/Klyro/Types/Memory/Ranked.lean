import Klyro.Types.Memory.Fuse
import Klyro.Types.Memory.Text
import Klyro.Util.Order

/-!
# Rankings

The searches and the fusion order what they found by score, best first, and then by id.

* `bestFirst` — that comparator, over anything with an id and a score.
* `Ranked` — every id once and no NaN: what may be sorted so.
* `Ranked.sort_perm`, `Ranked.sort_filter` — neither the order of arrival nor a filter disturbs the
  ranking.
-/

set_option autoImplicit false

namespace Klyro

section ranked

variable {α : Type} {id : α → Bytes} {score : α → F32} {xs ys : List α}

/-- By score, best first, then by id. -/
def bestFirst (id : α → Bytes) (score : α → F32) (a b : α) : Ordering :=
  (cmpFloat (score b) (score a)).then (cmpBytes (id a) (id b))

/-- Every id occurs once and no score is a NaN. -/
structure Ranked (id : α → Bytes) (score : α → F32) (xs : List α) : Prop where
  ids : (xs.map id).Nodup
  numbers : ∀ a ∈ xs, (score a).isNan = false

/-- What a ranking compares when there is no NaN. -/
def rankOf (id : α → Bytes) (score : α → F32) (a : α) : Int × Bytes := (-(score a).key, id a)

theorem compare_neg (x y : Int) : compare y x = compare (-x) (-y) := by
  rcases lt_trichotomy y x with h | h | h
  · rw [compare_lt_iff_lt.mpr h, compare_lt_iff_lt.mpr (by omega)]
  · rw [h, compare_eq_iff_eq.mpr rfl, compare_eq_iff_eq.mpr rfl]
  · rw [compare_gt_iff_gt.mpr h, compare_gt_iff_gt.mpr (by omega)]

theorem bestFirst_rankOf {a b : α} (ha : (score a).isNan = false) (hb : (score b).isNan = false) :
    bestFirst id score a b = cmpRanked (rankOf id score a) (rankOf id score b) := by
  rw [bestFirst, cmpFloat_key hb ha, compare_neg]
  rfl

namespace Ranked

theorem sort_eq (h : Ranked id score xs) : sortBy (bestFirst id score) xs =
    sortBy (fun a b => cmpRanked (rankOf id score a) (rankOf id score b)) xs :=
  sortBy_congr fun a ha b hb => bestFirst_rankOf (h.numbers a ha) (h.numbers b hb)

theorem ties (h : Ranked id score xs) : ∀ a ∈ xs, ∀ b ∈ xs,
    cmpRanked (rankOf id score a) (rankOf id score b) = .eq → a = b := by
  intro a ha b hb hab
  have hrank := Std.LawfulEqCmp.eq_of_compare hab
  exact List.inj_on_of_nodup_map h.ids ha hb (congrArg Prod.snd hrank)

theorem filter (h : Ranked id score xs) (p : α → Bool) : Ranked id score (xs.filter p) where
  ids := h.ids.sublist (List.filter_sublist.map id)
  numbers a ha := h.numbers a (List.mem_filter.mp ha).1

theorem perm (h : Ranked id score xs) (hperm : xs.Perm ys) : Ranked id score ys where
  ids := (hperm.map id).nodup_iff.mp h.ids
  numbers a ha := h.numbers a (hperm.mem_iff.mpr ha)

/-- The order of arrival does not count. -/
theorem sort_perm (h : Ranked id score xs) (hperm : xs.Perm ys) :
    sortBy (bestFirst id score) xs = sortBy (bestFirst id score) ys := by
  rw [h.sort_eq, (h.perm hperm).sort_eq]
  exact sortBy_eq_of_perm hperm h.ties

/-- A filter leaves the others where they are. -/
theorem sort_filter (h : Ranked id score xs) (p : α → Bool) :
    sortBy (bestFirst id score) (xs.filter p) = (sortBy (bestFirst id score) xs).filter p := by
  rw [h.sort_eq, (h.filter p).sort_eq]
  exact sortBy_filter h.ties p

end Ranked

end ranked

end Klyro
