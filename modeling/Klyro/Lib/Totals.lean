import Klyro.Lib.Assoc
import Mathlib.Algebra.GroupWithZero.Nat
import Mathlib.Algebra.Order.BigOperators.Group.Finset
import Mathlib.Algebra.Order.BigOperators.Group.List

/-!
# Totals over a finite map

* `Assoc.total f m` — the sum of `f` over the pairs of `m`.
* `total_insert`, `total_erase_add` — what one insertion and one removal do to it.
* `filter_pairs_key` — the pairs of one key.
* `total_le_total` — a map that weighs no more at any key weighs no more.
-/

set_option autoImplicit false

namespace Assoc

variable {κ ν : Type}

/-- The sum of a weight over the pairs. -/
def total (f : κ × ν → Nat) (m : Assoc κ ν) : Nat := (m.pairs.map f).sum

variable [DecidableEq κ] {f : κ × ν → Nat} {m m' : Assoc κ ν} {k : κ} {v : ν}

/-- Taking a key away and naming its pair first is only another order of the pairs. -/
theorem pairs_perm_erase (h : m.lookup k = some v) :
    m.pairs.Perm ((k, v) :: pairs (m.erase k)) := by
  have hnot : (k, v) ∉ pairs (m.erase k) := by
    rw [mem_pairs, lookup_erase_eq, if_pos rfl]
    simp
  refine (List.perm_ext_iff_of_nodup (nodup_pairs m) (List.nodup_cons.mpr ⟨hnot, nodup_pairs _⟩)).mpr ?_
  rintro ⟨k', v'⟩
  rw [List.mem_cons, mem_pairs, mem_pairs, lookup_erase_eq]
  by_cases hk : k' = k
  · subst hk
    simp [h, eq_comm]
  · simp [hk]

/-- The pairs of one key. -/
theorem filter_pairs_key (m : Assoc κ ν) (k : κ) :
    m.pairs.filter (fun p => p.1 = k) = ((m.lookup k).map fun v => (k, v)).toList := by
  have hnone : ∀ {m : Assoc κ ν}, m.lookup k = none → m.pairs.filter (fun p => p.1 = k) = [] := by
    intro m h
    rw [List.filter_eq_nil_iff]
    rintro ⟨k', v⟩ hp hk
    have hk' : k' = k := of_decide_eq_true hk
    rw [hk', mem_pairs, h] at hp
    cases hp
  cases h : m.lookup k with
  | none => exact hnone h
  | some v =>
    have hrest : (pairs (m.erase k)).filter (fun p => p.1 = k) = [] :=
      hnone (by rw [lookup_erase_eq, if_pos rfl])
    have hperm := (pairs_perm_erase h).filter fun p => p.1 = k
    rw [List.filter_cons_of_pos (by simp), hrest] at hperm
    exact List.perm_singleton.mp hperm

theorem erase_of_none (h : m.lookup k = none) : m.erase k = m :=
  AList.ext (List.kerase_of_notMem_keys (AList.lookup_eq_none.mp h))

/-- An insertion forgets what the key had by itself. -/
theorem insert_erase (k : κ) (v : ν) (m : Assoc κ ν) : (m.erase k).insert k v = m.insert k v := by
  have hgone : (m.erase k).erase k = m.erase k := erase_of_none (by rw [lookup_erase_eq, if_pos rfl])
  have hentries := congrArg AList.entries hgone
  refine AList.ext ?_
  rw [AList.entries_insert, AList.entries_insert]
  exact congrArg _ hentries

theorem total_erase_none (h : m.lookup k = none) : total f (m.erase k) = total f m := by
  rw [erase_of_none h]

theorem total_erase_add (h : m.lookup k = some v) :
    f (k, v) + total f (m.erase k) = total f m := by
  unfold total
  rw [((pairs_perm_erase h).map f).sum_eq, List.map_cons, List.sum_cons]

theorem total_erase_le (k : κ) : total f (m.erase k) ≤ total f m := by
  have hsub : (pairs (m.erase k)).Sublist m.pairs := (List.kerase_sublist k m.entries).map _
  exact (hsub.map f).sum_le_sum fun _ _ => Nat.zero_le _

/-- Putting a pair in names it first and forgets what the key had. -/
theorem pairs_perm_insert (k : κ) (v : ν) (m : Assoc κ ν) :
    (pairs (m.insert k v)).Perm ((k, v) :: pairs (m.erase k)) := by
  have h : (AList.insert k v m).lookup k = some v := AList.lookup_insert m
  refine (pairs_perm_erase h).trans (List.Perm.cons _ ?_)
  refine (List.perm_ext_iff_of_nodup (nodup_pairs _) (nodup_pairs _)).mpr ?_
  rintro ⟨k', v'⟩
  rw [mem_pairs, mem_pairs, lookup_erase_eq, lookup_erase_eq, lookup_insert_eq]
  by_cases hk : k' = k
  · simp [hk]
  · simp [hk]

theorem total_insert (k : κ) (v : ν) : total f (m.insert k v) = f (k, v) + total f (m.erase k) := by
  unfold total
  rw [((pairs_perm_insert k v m).map f).sum_eq, List.map_cons, List.sum_cons]

/-- What a key weighs in a map. -/
def weightAt (f : κ × ν → Nat) (m : Assoc κ ν) (k : κ) : Nat :=
  match m.lookup k with
  | some v => f (k, v)
  | none => 0

theorem total_eq_sum (m : Assoc κ ν) : total f m = ∑ k ∈ m.keys.toFinset, weightAt f m k := by
  rw [List.sum_toFinset _ m.keys_nodup, ← pairs_fst, List.map_map]
  unfold total
  congr 1
  refine List.map_congr_left ?_
  rintro ⟨k, v⟩ hp
  simp only [Function.comp_apply, weightAt, mem_pairs.mp hp]

/-- **Totals compare key by key.** -/
theorem total_le_total (h : ∀ k, weightAt f m' k ≤ weightAt f m k) : total f m' ≤ total f m := by
  rw [total_eq_sum, total_eq_sum]
  calc ∑ k ∈ m'.keys.toFinset, weightAt f m' k
      ≤ ∑ k ∈ m'.keys.toFinset, weightAt f m k := Finset.sum_le_sum fun k _ => h k
    _ ≤ ∑ k ∈ m.keys.toFinset, weightAt f m k := by
      apply Finset.sum_le_sum_of_ne_zero
      intro k _ hk
      rw [List.mem_toFinset, ← pairs_fst, List.mem_map]
      unfold weightAt at hk
      cases hv : m.lookup k with
      | none =>
        rw [hv] at hk
        exact absurd rfl hk
      | some v => exact ⟨(k, v), mem_pairs.mpr hv, rfl⟩

/-! ## Maps with the same lookups -/

variable {ν' : Type}

/-- Maps with the same lookups hold the same pairs, in whatever order. -/
theorem pairs_perm_of_lookup (h : ∀ k, m.lookup k = m'.lookup k) : m.pairs.Perm m'.pairs := by
  refine (List.perm_ext_iff_of_nodup m.nodup_pairs m'.nodup_pairs).mpr ?_
  rintro ⟨k, v⟩
  rw [mem_pairs, mem_pairs, h]

theorem mem_keys_iff {m : Assoc κ ν} : k ∈ m.pairs.map Prod.fst ↔ (m.lookup k).isSome = true := by
  rw [List.mem_map, Option.isSome_iff_exists]
  constructor
  · rintro ⟨⟨_, v⟩, hp, rfl⟩
    exact ⟨v, mem_pairs.mp hp⟩
  · rintro ⟨v, hv⟩
    exact ⟨(k, v), mem_pairs.mpr hv, rfl⟩

theorem length_le_size {l : List κ} (hn : l.Nodup) (h : ∀ k ∈ l, (m.lookup k).isSome = true) :
    l.length ≤ m.size := by
  have hsub : l ⊆ m.pairs.map Prod.fst := fun k hk => mem_keys_iff.mpr (h k hk)
  have hle := (hn.subperm hsub).length_le
  rwa [List.length_map, length_pairs] at hle

/-- Maps with the same keys are of one size. -/
theorem size_of_keys {m : Assoc κ ν} {m' : Assoc κ ν'}
    (h : ∀ k, (m.lookup k).isSome = (m'.lookup k).isSome) : m.size = m'.size := by
  have hle : ∀ {ν₁ ν₂ : Type} {m₁ : Assoc κ ν₁} {m₂ : Assoc κ ν₂},
      (∀ k, (m₁.lookup k).isSome = (m₂.lookup k).isSome) → m₁.size ≤ m₂.size := by
    intro ν₁ ν₂ m₁ m₂ h
    rw [← length_pairs m₁, ← List.length_map (f := Prod.fst)]
    refine length_le_size m₁.nodup_pairs_fst fun k hk => ?_
    rw [← h]
    exact mem_keys_iff.mp hk
  exact Nat.le_antisymm (hle h) (hle fun k => (h k).symm)

theorem total_of_lookup (h : ∀ k, m.lookup k = m'.lookup k) : total f m = total f m' :=
  ((pairs_perm_of_lookup h).map f).sum_eq

end Assoc
