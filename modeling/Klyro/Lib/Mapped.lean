import Klyro.Lib.Totals

/-!
# Maps of other values

* `Assoc.mapValues` — the same keys in the same order, with what a function makes of the values.
* `mapValues_insert`, `mapValues_erase` — one entry changes; of the others the function may change as
  long as its values do not.
-/

set_option autoImplicit false

namespace Assoc

variable {κ ν ν' : Type} {f g : ν → ν'} {m : Assoc κ ν} {k : κ}

/-- Every value is replaced, the keys stay where the iterator finds them. -/
def mapValues (f : ν → ν') (m : Assoc κ ν) : Assoc κ ν' where
  entries := m.entries.map (.map id fun _ v => f v)
  nodupKeys := m.nodupKeys.map₂ _ _

@[simp] theorem pairs_mapValues (f : ν → ν') (m : Assoc κ ν) :
    (m.mapValues f).pairs = m.pairs.map fun p => (p.1, f p.2) := by
  unfold pairs mapValues
  rw [List.map_map, List.map_map]
  rfl

@[simp] theorem size_mapValues (f : ν → ν') (m : Assoc κ ν) : (m.mapValues f).size = m.size := by
  rw [← length_pairs, ← length_pairs, pairs_mapValues, List.length_map]

theorem mapValues_congr (h : ∀ k v, (k, v) ∈ m.pairs → f v = g v) : m.mapValues f = m.mapValues g := by
  apply AList.ext
  show m.entries.map _ = m.entries.map _
  refine List.map_congr_left fun p hp => ?_
  have hsame := h p.1 p.2 (List.mem_map_of_mem hp)
  simp only [Sigma.map, id_eq, hsame]

variable [DecidableEq κ]

@[simp] theorem lookup_mapValues (f : ν → ν') (m : Assoc κ ν) (k : κ) :
    (m.mapValues f).lookup k = (m.lookup k).map f := List.dlookup_map₂ k

theorem kerase_map (k : κ) : ∀ list : List (Sigma fun _ : κ => ν),
    (list.map (.map id fun _ v => f v) : List (Sigma fun _ : κ => ν')).kerase k =
      (list.kerase k).map (.map id fun _ v => f v)
  | [] => rfl
  | p :: list => by
    generalize hq : (Sigma.map id (fun _ v => f v) p : Sigma fun _ : κ => ν') = q
    have hkey : q.1 = p.1 := by rw [← hq]; rfl
    rw [List.map_cons, hq]
    by_cases hk : k = p.1
    · rw [List.kerase_cons_eq hk, List.kerase_cons_eq (hk.trans hkey.symm)]
    · rw [List.kerase_cons_ne hk, List.kerase_cons_ne (hkey.symm ▸ hk), List.map_cons, hq,
        kerase_map k list]

/-- One entry less. -/
theorem mapValues_erase (h : ∀ k', k' ≠ k → ∀ v, m.lookup k' = some v → f v = g v) :
    mapValues f (m.erase k) = (m.mapValues g).erase k := by
  have hcongr : mapValues f (m.erase k) = mapValues g (m.erase k) := by
    refine mapValues_congr fun k' v hp => ?_
    rw [mem_pairs, lookup_erase_eq] at hp
    split at hp
    · cases hp
    · exact h k' ‹_› v hp
  rw [hcongr]
  apply AList.ext
  exact (kerase_map k m.entries).symm

/-- One entry more, or another value for it. -/
theorem mapValues_insert (v : ν) (h : ∀ k', k' ≠ k → ∀ v, m.lookup k' = some v → f v = g v) :
    mapValues f (m.insert k v) = (m.mapValues g).insert k (f v) := by
  rw [← insert_erase k (f v) (m.mapValues g), ← mapValues_erase h]
  apply AList.ext
  show (((⟨k, v⟩ : Sigma fun _ : κ => ν) :: m.entries.kerase k).map _) = _ :: List.kerase k _
  rw [List.map_cons]
  congr 1
  show _ = List.kerase k ((m.entries.kerase k).map _)
  rw [kerase_map, List.kerase_of_notMem_keys (List.notMem_keys_kerase k m.nodupKeys)]

end Assoc
