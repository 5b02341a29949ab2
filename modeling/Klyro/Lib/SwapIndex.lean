import Mathlib.Data.List.Basic

/-!
# Vectors with back-pointers, repaired by `swap_remove`

A vector of keys together with a function that says where each key sits.  Removal moves the last
key into the hole, so exactly one back-pointer has to be repaired.

* `swapRemove` — `Vec::swap_remove`, `none` when the index is out of range; `perm_of_swapRemove`.
* `Placed` — the vector and the back-pointers agree in both directions.
* `Placed.push`, `Placed.remove` — appending a fresh key and removing a placed one keep the
  agreement, and the removal is in range.
-/

set_option autoImplicit false

variable {α : Type}

/-- `Vec::swap_remove`: the last element takes the place of the removed one. -/
def swapRemove (xs : List α) (i : Nat) : Option (List α) :=
  match xs.getLast? with
  | some last => if i < xs.length then some ((xs.set i last).dropLast) else none
  | none => none

theorem swapRemove_isSome {xs : List α} {i : Nat} (h : i < xs.length) :
    ∃ ys, swapRemove xs i = some ys := by
  unfold swapRemove
  have hne : xs ≠ [] := by rintro rfl; simp at h
  rw [List.getLast?_eq_some_getLast hne]
  exact ⟨_, if_pos h⟩

/-- Where every element of the shortened vector comes from. -/
theorem getElem?_swapRemove {xs ys : List α} {i : Nat} (h : swapRemove xs i = some ys) (j : Nat) :
    ys[j]? = if j + 1 < xs.length then (if j = i then xs[xs.length - 1]? else xs[j]?) else none := by
  unfold swapRemove at h
  split at h
  · rename_i last hlast
    split at h
    · rename_i hi
      cases h
      rw [List.getElem?_dropLast, List.length_set]
      by_cases hj : j + 1 < xs.length
      · rw [if_pos hj, if_pos (by omega), List.getElem?_set]
        by_cases hji : j = i
        · subst hji
          rw [if_pos rfl, if_pos rfl, if_pos hi, ← hlast, List.getLast?_eq_getElem?]
        · rw [if_neg hji, if_neg (Ne.symm hji)]
      · rw [if_neg hj, if_neg (by omega)]
    · cases h
  · cases h

theorem length_of_swapRemove {xs ys : List α} {i : Nat} (h : swapRemove xs i = some ys) :
    i < xs.length ∧ ys.length + 1 = xs.length := by
  unfold swapRemove at h
  split at h
  · split at h
    · rename_i hi
      cases h
      rw [List.length_dropLast, List.length_set]
      exact ⟨hi, by omega⟩
    · cases h
  · cases h

theorem mem_of_swapRemove {xs ys : List α} {i j : Nat} {y : α} (h : swapRemove xs i = some ys)
    (hy : ys[j]? = some y) : y ∈ xs := by
  rw [getElem?_swapRemove h j] at hy
  split at hy
  · split at hy
    · exact List.mem_of_getElem? hy
    · exact List.mem_of_getElem? hy
  · cases hy

/-- **Nothing is lost**: the vector is the element taken out and the shortened vector, in another
order. -/
theorem perm_of_swapRemove {xs ys : List α} {i : Nat} {x : α} (h : swapRemove xs i = some ys)
    (hx : xs[i]? = some x) : xs.Perm (x :: ys) := by
  unfold swapRemove at h
  rcases xs.eq_nil_or_concat with rfl | ⟨init, last, rfl⟩
  · cases h
  · rw [List.concat_eq_append, List.getLast?_concat] at h
    dsimp only at h
    split at h
    · rename_i hi
      rw [List.concat_eq_append] at hx
      injection h with h
      subst h
      rw [List.length_append, List.length_singleton] at hi
      rcases Nat.lt_or_ge i init.length with hin | hin
      · rw [List.getElem?_append_left hin, List.getElem?_eq_getElem hin, Option.some.injEq] at hx
        rw [List.concat_eq_append, List.set_append_left _ _ hin, List.dropLast_concat,
          List.set_eq_take_append_cons_drop, if_pos hin]
        have hsplit : init = init.take i ++ x :: init.drop (i + 1) := by
          rw [← hx, List.getElem_cons_drop, List.take_append_drop]
        have hleft : (init ++ [last]).Perm (x :: (init.take i ++ init.drop (i + 1)) ++ [last]) := by
          conv_lhs => rw [hsplit]
          exact List.Perm.append_right _ List.perm_middle
        refine hleft.trans (List.Perm.cons x ?_)
        exact (List.perm_append_singleton last _).trans List.perm_middle.symm
      · have hlast : i = init.length := by omega
        rw [hlast, List.getElem?_concat_length, Option.some.injEq] at hx
        rw [List.concat_eq_append, hlast, List.set_append_right _ _ (Nat.le_refl _), Nat.sub_self,
          List.set_cons_zero, List.dropLast_concat, hx]
        exact List.perm_append_singleton x init
    · cases h

/-- `keys` and the back-pointers `slot` describe the same placement. -/
def Placed (keys : List α) (slot : α → Option Nat) : Prop :=
  ∀ i k, keys[i]? = some k ↔ slot k = some i

namespace Placed

variable {keys : List α} {slot : α → Option Nat}

theorem nil : Placed ([] : List α) fun _ => none := by
  intro i k
  simp

theorem congr (h : Placed keys slot) {slot' : α → Option Nat} (he : ∀ k, slot' k = slot k) :
    Placed keys slot' := by
  intro i k
  rw [he k]
  exact h i k

theorem mem_iff (h : Placed keys slot) (k : α) : k ∈ keys ↔ ∃ i, slot k = some i := by
  rw [List.mem_iff_getElem?]
  exact exists_congr fun i => h i k

theorem nodup (h : Placed keys slot) : keys.Nodup := by
  rw [List.Nodup, List.pairwise_iff_getElem]
  intro i j hi hj hij heq
  have h1 := (h i _).mp (List.getElem?_eq_getElem hi)
  have h2 := (h j _).mp (List.getElem?_eq_getElem hj)
  rw [heq, h2] at h1
  injection h1
  omega

theorem lt_length (h : Placed keys slot) {k : α} {i : Nat} (hk : slot k = some i) :
    i < keys.length :=
  (List.getElem?_eq_some_iff.mp ((h i k).mpr hk)).1

variable [DecidableEq α]

/-- Appending a key that is not placed yet. -/
theorem push (h : Placed keys slot) {k : α} (hk : slot k = none) :
    Placed (keys ++ [k]) fun k' => if k' = k then some keys.length else slot k' := by
  intro i k'
  dsimp only
  rcases Nat.lt_trichotomy i keys.length with hi | rfl | hi
  · rw [List.getElem?_append_left hi, h i k']
    by_cases he : k' = k
    · subst he
      simp only [hk, if_true]
      constructor
      · intro h0; cases h0
      · intro h0; injection h0; omega
    · rw [if_neg he]
  · rw [List.getElem?_concat_length]
    by_cases he : k' = k
    · simp [he]
    · rw [if_neg he]
      constructor
      · intro h0; cases h0; exact absurd rfl he
      · intro h0; exact absurd (h.lt_length h0) (Nat.lt_irrefl _)
  · have h0 : (keys ++ [k])[i]? = none := by
      rw [List.getElem?_eq_none_iff, List.length_append]
      simp only [List.length_singleton]
      omega
    rw [h0]
    by_cases he : k' = k
    · simp only [he, if_true]
      constructor
      · intro h1; cases h1
      · intro h1; injection h1; omega
    · rw [if_neg he]
      constructor
      · intro h1; cases h1
      · intro h1; have := h.lt_length h1; omega

/-- **Removing a placed key.**  The index is in range, and pointing the key that now sits in the
hole at the hole is the only repair that is needed. -/
theorem remove (h : Placed keys slot) {k : α} {i : Nat} (hk : slot k = some i) :
    ∃ keys', swapRemove keys i = some keys' ∧
      Placed keys' fun k' =>
        if k' = k then none else if keys'[i]? = some k' then some i else slot k' := by
  have hi := h.lt_length hk
  obtain ⟨keys', hs⟩ := swapRemove_isSome hi
  refine ⟨keys', hs, ?_⟩
  have hget := getElem?_swapRemove hs
  intro j k'
  dsimp only
  by_cases hkk : k' = k
  · -- the removed key is nowhere: it sat at `i` only
    subst hkk
    simp only [if_true]
    constructor
    · intro hj
      rw [hget j] at hj
      split at hj
      · split at hj
        · have := (h _ _).mp hj
          rw [hk] at this; injection this; omega
        · have := (h _ _).mp hj
          rw [hk] at this; injection this; omega
      · cases hj
    · intro h0; cases h0
  · rw [if_neg hkk]
    by_cases hm : keys'[i]? = some k'
    · -- `k'` is the key that was moved into the hole
      rw [if_pos hm]
      constructor
      · intro hj
        rw [hget i] at hm
        rw [hget j] at hj
        split at hm
        · rw [if_pos rfl] at hm
          split at hj
          · split at hj
            · rename_i hji; rw [hji]
            · have h1 := (h _ _).mp hm
              have h2 := (h _ _).mp hj
              rw [h1] at h2; injection h2; omega
          · cases hj
        · cases hm
      · intro h0; injection h0 with h0; rw [← h0]; exact hm
    · rw [if_neg hm, ← h j k', hget j]
      rw [hget i] at hm
      by_cases hj : j + 1 < keys.length
      · rw [if_pos hj]
        by_cases hji : j = i
        · subst hji
          rw [if_pos rfl]
          rw [if_pos hj, if_pos rfl] at hm
          constructor
          · intro h0; exact absurd h0 hm
          · intro h0
            have := (h _ _).mp h0
            have hk' := (h _ _).mpr hk
            rw [h0] at hk'; injection hk' with hk'; exact absurd hk' hkk
        · rw [if_neg hji]
      · rw [if_neg hj]
        constructor
        · intro h0; cases h0
        · -- the last position is empty now; its key is the one in the hole, or `k` itself
          intro h0
          have hlt := (List.getElem?_eq_some_iff.mp h0).1
          have hjl : j = keys.length - 1 := by omega
          by_cases hil : i + 1 < keys.length
          · rw [if_pos hil, if_pos rfl, ← hjl] at hm
            exact absurd h0 hm
          · have hij : i = j := by omega
            have hk' := (h _ _).mpr hk
            rw [hij, h0] at hk'; injection hk' with hk'; exact absurd hk' hkk

end Placed
