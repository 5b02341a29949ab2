import Mathlib.Data.List.AList

/-!
# Finite maps with an arbitrary iteration order

`Assoc κ ν` is Mathlib's association list without duplicate keys.  A hash map is one whose list
order stands for the order its iterator happens to follow, so a statement about every `Assoc` is
a statement about every iteration order.

* `Assoc.adjust` — in-place change of a value that is present (`get_mut`).
* `Assoc.pairs` — the iterator; `mem_pairs` ties it to `lookup`.
* `Assoc.insertAll` — a run of insertions; `lookup_insertAll_pairs` says that inserting every
  pair of a map into the empty map gives a map with the same lookups.
-/

set_option autoImplicit false

/-- A map from `κ` to `ν`. -/
abbrev Assoc (κ ν : Type) := AList fun _ : κ => ν

namespace Assoc

variable {κ ν : Type}

/-- The iterator: every pair once. -/
def pairs (m : Assoc κ ν) : List (κ × ν) := m.entries.map fun p => (p.1, p.2)

/-- How many keys the map holds. -/
def size (m : Assoc κ ν) : Nat := m.entries.length

/-- Whether the map holds nothing. -/
def isEmpty (m : Assoc κ ν) : Bool := m.entries.isEmpty

theorem pairs_fst (m : Assoc κ ν) : m.pairs.map Prod.fst = m.keys := by
  unfold pairs
  rw [List.map_map]
  rfl

theorem nodup_pairs_fst (m : Assoc κ ν) : (m.pairs.map Prod.fst).Nodup := by
  rw [pairs_fst]
  exact m.keys_nodup

theorem nodup_pairs (m : Assoc κ ν) : m.pairs.Nodup :=
  List.Nodup.of_map _ m.nodup_pairs_fst

@[simp] theorem length_pairs (m : Assoc κ ν) : m.pairs.length = m.size := by
  simp [pairs, size]

theorem isEmpty_iff (m : Assoc κ ν) : m.isEmpty = true ↔ m.pairs = [] := by
  simp [isEmpty, pairs]

@[simp] theorem pairs_empty : (∅ : Assoc κ ν).pairs = [] := rfl

variable [DecidableEq κ]

/-- Change the value at `k` in place; nothing happens when `k` is absent. -/
def adjust (k : κ) (f : ν → ν) (m : Assoc κ ν) : Assoc κ ν :=
  match m.lookup k with
  | some v => m.insert k (f v)
  | none => m

/-- Whether `k` is present. -/
def contains (m : Assoc κ ν) (k : κ) : Bool := (m.lookup k).isSome

/-- Insert every pair, from the left. -/
def insertAll (ps : List (κ × ν)) (m : Assoc κ ν) : Assoc κ ν :=
  ps.foldl (fun m p => m.insert p.1 p.2) m

theorem lookup_insert_eq (k k' : κ) (v : ν) (m : Assoc κ ν) :
    (m.insert k v).lookup k' = if k' = k then some v else m.lookup k' := by
  by_cases h : k' = k
  · subst h; simp
  · rw [AList.lookup_insert_ne h, if_neg h]

theorem lookup_erase_eq (k k' : κ) (m : Assoc κ ν) :
    (m.erase k).lookup k' = if k' = k then none else m.lookup k' := by
  by_cases h : k' = k
  · subst h; simp
  · rw [AList.lookup_erase_ne h, if_neg h]

theorem lookup_adjust (k k' : κ) (f : ν → ν) (m : Assoc κ ν) :
    (adjust k f m).lookup k' = if k' = k then (m.lookup k).map f else m.lookup k' := by
  unfold adjust
  split
  · rename_i v hv
    rw [lookup_insert_eq, hv]
    rfl
  · rename_i hv
    by_cases h : k' = k
    · subst h; simp [hv]
    · simp [h]

@[simp] theorem lookup_adjust_self (k : κ) (f : ν → ν) (m : Assoc κ ν) :
    (adjust k f m).lookup k = (m.lookup k).map f := by
  rw [lookup_adjust, if_pos rfl]

theorem lookup_adjust_ne {k k' : κ} (h : k' ≠ k) (f : ν → ν) (m : Assoc κ ν) :
    (adjust k f m).lookup k' = m.lookup k' := by
  rw [lookup_adjust, if_neg h]

@[simp] theorem mem_pairs {m : Assoc κ ν} {k : κ} {v : ν} :
    (k, v) ∈ m.pairs ↔ m.lookup k = some v := by
  unfold pairs
  rw [List.mem_map, ← Option.mem_def, AList.mem_lookup_iff]
  constructor
  · rintro ⟨⟨k', v'⟩, h, he⟩
    cases he
    exact h
  · intro h
    exact ⟨⟨k, v⟩, h, rfl⟩

theorem contains_iff (m : Assoc κ ν) (k : κ) : m.contains k = true ↔ ∃ v, m.lookup k = some v := by
  unfold contains
  rw [Option.isSome_iff_exists]

theorem insertAll_cons (p : κ × ν) (ps : List (κ × ν)) (m : Assoc κ ν) :
    insertAll (p :: ps) m = insertAll ps (m.insert p.1 p.2) := rfl

theorem lookup_insertAll_of_notMem (k : κ) : ∀ (ps : List (κ × ν)) (m : Assoc κ ν),
    k ∉ ps.map Prod.fst → (insertAll ps m).lookup k = m.lookup k
  | [], _, _ => rfl
  | p :: ps, m, h => by
    rw [List.map_cons, List.mem_cons, not_or] at h
    rw [insertAll_cons, lookup_insertAll_of_notMem k ps _ h.2, AList.lookup_insert_ne h.1]

theorem lookup_insertAll_of_mem {k : κ} {v : ν} : ∀ (ps : List (κ × ν)) (m : Assoc κ ν),
    (ps.map Prod.fst).Nodup → (k, v) ∈ ps → (insertAll ps m).lookup k = some v
  | p :: ps, m, hn, h => by
    rw [List.map_cons, List.nodup_cons] at hn
    rw [insertAll_cons]
    rcases List.mem_cons.mp h with rfl | h
    · rw [lookup_insertAll_of_notMem _ ps _ hn.1]
      exact AList.lookup_insert _
    · exact lookup_insertAll_of_mem ps _ hn.2 h

/-- Inserting the pairs of a map, in any order, into the empty map rebuilds its lookups. -/
theorem lookup_insertAll_pairs (m : Assoc κ ν) (k : κ) :
    (insertAll m.pairs ∅).lookup k = m.lookup k := by
  cases h : m.lookup k with
  | some v => exact lookup_insertAll_of_mem _ _ m.nodup_pairs_fst (mem_pairs.mpr h)
  | none =>
    rw [lookup_insertAll_of_notMem]
    · rfl
    · rw [pairs_fst]
      exact fun hk => AList.lookup_eq_none.mp h hk

/-- A run of insertions that stops early gives another map. -/
theorem insertAll_take_ne {ps : List (κ × ν)} {k : Nat} (hn : (ps.map Prod.fst).Nodup)
    (hk : k < ps.length) : insertAll (ps.take k) ∅ ≠ insertAll ps ∅ := by
  intro heq
  have hsplit : ps.take k ++ ps[k] :: ps.drop (k + 1) = ps := by
    rw [← List.drop_eq_getElem_cons hk, List.take_append_drop]
  have hall : (insertAll ps ∅).lookup ps[k].1 = some ps[k].2 :=
    lookup_insertAll_of_mem ps ∅ hn (List.getElem_mem hk)
  have hnone : (insertAll (ps.take k) ∅).lookup ps[k].1 = none := by
    rw [lookup_insertAll_of_notMem]
    · rfl
    · intro hmem
      rw [← hsplit, List.map_append, List.nodup_append] at hn
      exact hn.2.2 _ hmem _ (List.mem_map_of_mem List.mem_cons_self) rfl
  rw [heq, hall] at hnone
  cases hnone

/-- A run of insertions leaves the map empty only when it inserts nothing. -/
theorem isEmpty_insertAll (ps : List (κ × ν)) : (insertAll ps ∅).isEmpty = ps.isEmpty := by
  have hgrow : ∀ (ps : List (κ × ν)) (m : Assoc κ ν), (∃ k v, m.lookup k = some v) →
      ∃ k v, (insertAll ps m).lookup k = some v := by
    intro ps
    induction ps with
    | nil => exact fun _ h => h
    | cons p ps ih =>
      intro m _
      exact ih (m.insert p.1 p.2) ⟨p.1, p.2, AList.lookup_insert _⟩
  cases ps with
  | nil => rfl
  | cons p ps =>
    obtain ⟨k, v, hk⟩ := hgrow ps (AList.insert p.1 p.2 ∅) ⟨p.1, p.2, AList.lookup_insert _⟩
    rw [← mem_pairs] at hk
    rw [List.isEmpty_cons, Bool.eq_false_iff]
    intro hempty
    rw [insertAll_cons, isEmpty_iff] at hempty
    rw [hempty] at hk
    cases hk

end Assoc
