import Mathlib.Data.List.Basic

/-!
# Binary search on vectors

The halving loop of the standard library and what it finds.

* `binarySearchBy` — `slice::binary_search_by`: `ok` with a matching position, or `error` with an
  insertion point.
* `partitionPoint` — `slice::partition_point`.
* `partitionPoint_le` — the answer is a position or the length, whatever the predicate.
* `partitionPoint_eq` — on a vector where the predicate is true up to `n` and false from there,
  the answer is `n`.
* `splitAt_countP`, `SplitAt.pairwise_insertIdx` — where a vector in order is split, and what an
  insertion there does.
* `binarySearchBy_succ` — in a vector in order the search ends at the last element at or before what
  it looks for.
-/

set_option autoImplicit false

variable {α : Type}

/-- The halving loop: the candidate position left when one is left. -/
def searchBase (f : α → Ordering) (xs : List α) : Nat → Nat → Nat → Nat
  | 0, base, _ => base
  | fuel + 1, base, size =>
    if 1 < size then
      let half := size / 2
      let mid := base + half
      let base' := if (xs[mid]?).map f = some .gt then base else mid
      searchBase f xs fuel base' (size - half)
    else base

/-- `slice::binary_search_by`. -/
def binarySearchBy (f : α → Ordering) (xs : List α) : Except Nat Nat :=
  if xs.length = 0 then .error 0
  else
    let base := searchBase f xs xs.length 0 xs.length
    match (xs[base]?).map f with
    | some .eq => .ok base
    | some .lt => .error (base + 1)
    | _ => .error base

/-- `slice::partition_point`. -/
def partitionPoint (p : α → Bool) (xs : List α) : Nat :=
  match binarySearchBy (fun x => if p x then .lt else .gt) xs with
  | .ok i => i
  | .error i => i

section search

variable {f : α → Ordering} {xs : List α}

/-- The loop stays inside the stretch it was given. -/
theorem searchBase_mem : ∀ (fuel base size : Nat), 0 < size →
    base ≤ searchBase f xs fuel base size ∧ searchBase f xs fuel base size < base + size
  | 0, base, size, h => ⟨Nat.le_refl _, by simp only [searchBase]; omega⟩
  | fuel + 1, base, size, h => by
    unfold searchBase
    split
    · rename_i hs
      simp only
      split
      · have := searchBase_mem fuel base (size - size / 2) (by omega)
        omega
      · have := searchBase_mem fuel (base + size / 2) (size - size / 2) (by omega)
        omega
    · omega

theorem partitionPoint_le (p : α → Bool) (xs : List α) : partitionPoint p xs ≤ xs.length := by
  unfold partitionPoint binarySearchBy
  by_cases h0 : xs.length = 0
  · rw [if_pos h0]
    exact Nat.zero_le _
  · rw [if_neg h0]
    have hmem : 0 ≤ searchBase (fun x => if p x then .lt else .gt) xs xs.length 0 xs.length ∧
        searchBase (fun x => if p x then .lt else .gt) xs xs.length 0 xs.length < 0 + xs.length :=
      searchBase_mem xs.length 0 xs.length (by omega)
    simp only
    split <;> rename_i h <;> split at h <;> cases h <;> omega

end search

/-- The predicate is true exactly before position `n`. -/
def SplitAt (p : α → Bool) (xs : List α) (n : Nat) : Prop :=
  n ≤ xs.length ∧ ∀ i x, xs[i]? = some x → (p x = true ↔ i < n)

section thresholds

variable {p : α → Bool} {xs : List α} {a : α} {n : Nat}

theorem SplitAt.none (h : SplitAt p xs 0) : ∀ x ∈ xs, p x = false := by
  intro x hx
  obtain ⟨i, hi⟩ := List.getElem?_of_mem hx
  have := h.2 i x hi
  simpa using this

theorem SplitAt.head (h : SplitAt p (a :: xs) (n + 1)) : p a = true :=
  (h.2 0 a rfl).mpr (Nat.succ_pos n)

theorem SplitAt.tail (h : SplitAt p (a :: xs) (n + 1)) : SplitAt p xs n :=
  ⟨Nat.le_of_succ_le_succ h.1, fun i x hx => (h.2 (i + 1) x hx).trans Nat.succ_lt_succ_iff⟩

/-- A vector is split where as many elements are past as the predicate counts. -/
theorem splitAt_countP : ∀ {xs : List α}, xs.Pairwise (fun a b => p b = true → p a = true) →
    SplitAt p xs (xs.countP p)
  | [], _ => ⟨Nat.le_refl _, fun i x hx => by cases hx⟩
  | a :: xs, h => by
    obtain ⟨hfirst, hrest⟩ := List.pairwise_cons.mp h
    refine ⟨List.countP_le_length, fun i x hx => ?_⟩
    cases ha : p a with
    | true =>
      rw [List.countP_cons_of_pos ha]
      cases i with
      | zero =>
        cases hx
        simp [ha]
      | succ i =>
        rw [(splitAt_countP hrest).2 i x hx]
        omega
    | false =>
      have hnone : ∀ b ∈ a :: xs, ¬ p b = true := by
        intro b hb hpb
        rcases List.mem_cons.mp hb with rfl | hb
        · rw [ha] at hpb
          cases hpb
        · rw [hfirst b hb hpb] at ha
          cases ha
      rw [List.countP_eq_zero.mpr hnone]
      simp [hnone x (List.mem_of_getElem? hx)]

theorem SplitAt.countP_eq : ∀ {xs : List α} {n : Nat}, SplitAt p xs n → xs.countP p = n
  | [], n, h => (Nat.le_zero.mp h.1).symm
  | a :: xs, 0, h => List.countP_eq_zero.mpr fun x hx => by rw [h.none x hx]; decide
  | a :: xs, n + 1, h => by rw [List.countP_cons_of_pos h.head, h.tail.countP_eq]

/-- What is put in where a vector in order is split keeps it in order. -/
theorem SplitAt.pairwise_insertIdx {R : α → α → Prop} : ∀ {xs : List α} {n : Nat}, SplitAt p xs n →
    xs.Pairwise R → (∀ x ∈ xs, p x = true → R x a) → (∀ x ∈ xs, p x = false → R a x) →
    (xs.insertIdx n a).Pairwise R
  | xs, 0, h, hR, _, hafter => by
    rw [List.insertIdx_zero, List.pairwise_cons]
    exact ⟨fun x hx => hafter x hx (h.none x hx), hR⟩
  | [], n + 1, h, _, _, _ => absurd h.1 (by simp)
  | b :: xs, n + 1, h, hR, hbefore, hafter => by
    obtain ⟨hfirst, hrest⟩ := List.pairwise_cons.mp hR
    rw [List.insertIdx_succ_cons, List.pairwise_cons]
    refine ⟨fun x hx => ?_, h.tail.pairwise_insertIdx hrest (fun x hx => hbefore x (List.mem_cons_of_mem b hx))
      fun x hx => hafter x (List.mem_cons_of_mem b hx)⟩
    rcases (List.mem_insertIdx h.tail.1).mp hx with rfl | hx
    · exact hbefore b List.mem_cons_self h.head
    · exact hfirst x hx

end thresholds

/-- On a split vector the loop ends at the last position before the split, or at the start. -/
theorem searchBase_split {p : α → Bool} {xs : List α} {n : Nat} (h : SplitAt p xs n) :
    ∀ (fuel base size : Nat), size ≤ fuel + 1 → 0 < size → base + size ≤ xs.length →
      (base = 0 ∨ base < n) → n ≤ base + size →
      let b := searchBase (fun x => if p x then .lt else .gt) xs fuel base size
      (b = 0 ∨ b < n) ∧ n ≤ b + 1
  | 0, base, size, hf, hs, hl, hb, hn => by
    simp only [searchBase]
    exact ⟨hb, by omega⟩
  | fuel + 1, base, size, hf, hs, hl, hb, hn => by
    unfold searchBase
    by_cases h1 : 1 < size
    · rw [if_pos h1]
      simp only
      have hmid : base + size / 2 < xs.length := by omega
      have hget := List.getElem?_eq_getElem hmid
      have hp := h.2 _ _ hget
      rw [hget, Option.map_some]
      by_cases hlt : base + size / 2 < n
      · rw [hp.mpr hlt, if_neg (by decide)]
        exact searchBase_split h fuel _ _ (by omega) (by omega) (by omega) (.inr hlt) (by omega)
      · have hpf : p xs[base + size / 2] = false := by
          rw [← Bool.not_eq_true]
          exact fun hc => hlt (hp.mp hc)
        rw [hpf, if_pos (by decide)]
        exact searchBase_split h fuel _ _ (by omega) (by omega) (by omega) hb (by omega)
    · rw [if_neg h1]
      exact ⟨hb, by omega⟩

/-- **On a split vector the partition point is the split.** -/
theorem partitionPoint_eq {p : α → Bool} {xs : List α} {n : Nat} (h : SplitAt p xs n) :
    partitionPoint p xs = n := by
  unfold partitionPoint binarySearchBy
  by_cases h0 : xs.length = 0
  · rw [if_pos h0]
    have := h.1
    simp only
    omega
  · rw [if_neg h0]
    simp only
    have hb := searchBase_split h xs.length 0 xs.length (by omega) (by omega) (by omega) (.inl rfl)
      (by have := h.1; omega)
    have hlt : searchBase (fun x => if p x then .lt else .gt) xs xs.length 0 xs.length <
        0 + xs.length := (searchBase_mem xs.length 0 xs.length (by omega)).2
    simp only at hb
    generalize searchBase (fun x => if p x = true then Ordering.lt else Ordering.gt) xs xs.length 0
      xs.length = b at hb hlt
    have hget := List.getElem?_eq_getElem (show b < xs.length by omega)
    have hp := h.2 _ _ hget
    rw [hget, Option.map_some]
    by_cases hbn : b < n
    · rw [hp.mpr hbn]
      simp only [if_true]
      omega
    · have hpf : p xs[b] = false := by
        rw [← Bool.not_eq_true]
        exact fun hc => hbn (hp.mp hc)
      rw [hpf]
      simp only [Bool.false_eq_true, if_false]
      omega

/-! ## Vectors in order -/

section ordered

variable {f : α → Ordering} {xs : List α}

/-- The loop only asks which elements are past the one it looks for. -/
theorem searchBase_eq_split (f : α → Ordering) (xs : List α) : ∀ (fuel base size : Nat),
    searchBase f xs fuel base size =
      searchBase (fun x => if (f x != .gt) = true then .lt else .gt) xs fuel base size
  | 0, _, _ => rfl
  | fuel + 1, base, size => by
    have hsame : (xs[base + size / 2]?).map f = some .gt ↔ (xs[base + size / 2]?).map
        (fun x => if (f x != .gt) = true then Ordering.lt else Ordering.gt) = some .gt := by
      cases xs[base + size / 2]? with
      | none => simp
      | some x => cases hx : f x <;> simp [hx]
    unfold searchBase
    dsimp only
    simp only [hsame, searchBase_eq_split f xs fuel]

theorem binarySearchBy_past (h : SplitAt (fun x => f x != .gt) xs 0) :
    binarySearchBy f xs = .error 0 := by
  unfold binarySearchBy
  by_cases h0 : xs.length = 0
  · rw [if_pos h0]
  · rw [if_neg h0]
    have hb := searchBase_split h xs.length 0 xs.length (by omega) (by omega) (by omega) (.inl rfl)
      (by omega)
    rw [← searchBase_eq_split] at hb
    have hbase : searchBase f xs xs.length 0 xs.length = 0 := by
      dsimp only at hb
      omega
    have hget := List.getElem?_eq_getElem (show 0 < xs.length by omega)
    have hgt : f xs[0] = .gt := by
      have := h.2 0 _ hget
      simpa using this
    dsimp only
    rw [hbase, hget, Option.map_some, hgt]

/-- **Where the search ends**, when the elements at or before what it looks for come first: at the
last of them. -/
theorem binarySearchBy_succ {i : Nat} {x : α} (h : SplitAt (fun x => f x != .gt) xs (i + 1))
    (hx : xs[i]? = some x) : binarySearchBy f xs = if f x = .eq then .ok i else .error (i + 1) := by
  have hle := h.1
  unfold binarySearchBy
  rw [if_neg (by omega)]
  have hb := searchBase_split h xs.length 0 xs.length (by omega) (by omega) (by omega) (.inl rfl)
    (by omega)
  rw [← searchBase_eq_split] at hb
  have hbase : searchBase f xs xs.length 0 xs.length = i := by
    dsimp only at hb
    omega
  have hnot : f x ≠ .gt := by
    have := (h.2 i x hx).mpr (Nat.lt_succ_self i)
    simpa using this
  dsimp only
  rw [hbase, hx, Option.map_some]
  cases hf : f x with
  | lt => rfl
  | eq => rfl
  | gt => exact absurd hf hnot

end ordered
