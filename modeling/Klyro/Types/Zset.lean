import Klyro.Lib.BinarySearch
import Klyro.Types.List

/-!
# Sorted sets (`types/zset.rs`)

A vector of members with scores, kept ordered by score and then member.

* `Zset.add`, `Zset.rem`, `Zset.incrBy`, `Zset.pop` — the mutators.
* `Zset.Sorted` — the order the vector is meant to keep; `add_last` says that adding an entry
  above all others appends it, so adding the entries of a sorted vector in order rebuilds it
  (`addAll_sorted`), and adding different members in any order keeps them all (`addAll_perm`).
-/

set_option autoImplicit false

namespace Klyro

/-- A sorted set. -/
structure Zset where
  entries : List (Bytes × F64) := []
deriving DecidableEq

/-- One end of a score interval. -/
structure ScoreBound where
  score : F64
  exclusive : Bool
deriving DecidableEq

namespace ScoreBound

/-- `ScoreBound::parse`. -/
def parse : Bytes → Option ScoreBound
  | 40 :: inner => (parseF64 inner).map fun score => ⟨score, true⟩
  | s => (parseF64 s).map fun score => ⟨score, false⟩

/-- `accepts_as_min`. -/
def acceptsAsMin (b : ScoreBound) (score : F64) : Bool :=
  if b.exclusive then b.score.lt score else b.score.le score

/-- `accepts_as_max`. -/
def acceptsAsMax (b : ScoreBound) (score : F64) : Bool :=
  if b.exclusive then score.lt b.score else score.le b.score

end ScoreBound

/-- `cmp_entry`. -/
def cmpEntry (a b : Bytes × F64) : Ordering := (cmpFloat a.2 b.2).then (cmpBytes a.1 b.1)

namespace Zset

/-- `find_index`. -/
def findIndex (z : Zset) (member : Bytes) : Option Nat := z.entries.findIdx? fun p => p.1 == member

/-- `add`: whether the member is new, and the set with it at `score`. -/
def add (z : Zset) (member : Bytes) (score : F64) : Bool × Zset :=
  let found := z.findIndex member
  let entries := match found with
    | some idx => z.entries.eraseIdx idx
    | none => z.entries
  let pos := partitionPoint (fun p => cmpEntry p (member, score) == .lt) entries
  (found.isNone, ⟨entries.insertIdx pos (member, score)⟩)

/-- `rem`. -/
def rem (z : Zset) (member : Bytes) : Bool × Zset :=
  match z.findIndex member with
  | some idx => (true, ⟨z.entries.eraseIdx idx⟩)
  | none => (false, z)

/-- `score`. -/
def score (z : Zset) (member : Bytes) : Option F64 :=
  (z.findIndex member).bind fun i => (z.entries[i]?).map Prod.snd

/-- `size`. -/
def size (z : Zset) : Nat := z.entries.length

/-- `incr_by`: the new score, and the set holding it. -/
def incrBy (z : Zset) (member : Bytes) (delta : F64) : F64 × Zset :=
  let newScore := ((z.score member).getD (SoftFloat.zero false)).add delta
  (newScore, (z.add member newScore).2)

/-- `rank`. -/
def rank (z : Zset) (member : Bytes) : Option Nat := z.findIndex member

/-- `rev_rank`. -/
def revRank (z : Zset) (member : Bytes) : Option Nat :=
  (z.rank member).map fun r => z.entries.length - 1 - r

/-- `range`. -/
def range (z : Zset) (start stop : Int) : List (Bytes × F64) :=
  match resolveRange z.entries.length start stop with
  | none => []
  | some (start, stop) => (z.entries.take (stop + 1)).drop start

/-- `rev_range`. -/
def revRange (z : Zset) (start stop : Int) : List (Bytes × F64) :=
  let len := z.entries.length
  match resolveRange len start stop with
  | none => []
  | some (start, stop) => ((z.entries.take (len - 1 - start + 1)).drop (len - 1 - stop)).reverse

/-- Whether a score lies between two bounds. -/
def within (min max : ScoreBound) (score : F64) : Bool :=
  min.acceptsAsMin score && max.acceptsAsMax score

/-- `range_by_score`. -/
def rangeByScore (z : Zset) (min max : ScoreBound) : List (Bytes × F64) :=
  z.entries.filter fun p => within min max p.2

/-- `count_by_score`. -/
def countByScore (z : Zset) (min max : ScoreBound) : Nat := (z.rangeByScore min max).length

/-- `remove_range_by_rank`. -/
def removeRangeByRank (z : Zset) (start stop : Int) : Nat × Zset :=
  match resolveRange z.entries.length start stop with
  | none => (0, z)
  | some (start, stop) =>
    (((z.entries.take (stop + 1)).drop start).length,
      ⟨z.entries.take start ++ z.entries.drop (stop + 1)⟩)

/-- `remove_range_by_score`. -/
def removeRangeByScore (z : Zset) (min max : ScoreBound) : Nat × Zset :=
  let kept := z.entries.filter fun p => !within min max p.2
  (z.entries.length - kept.length, ⟨kept⟩)

/-- `pop`. -/
def pop (z : Zset) (count : Nat) (fromMax : Bool) : List (Bytes × F64) × Zset :=
  let count := Nat.min count z.entries.length
  if fromMax then
    let at' := z.entries.length - count
    ((z.entries.drop at').reverse, ⟨z.entries.take at'⟩)
  else (z.entries.take count, ⟨z.entries.drop count⟩)

/-- Add every pair, from the left. -/
def addAll (pairs : List (Bytes × F64)) (z : Zset) : Zset :=
  pairs.foldl (fun z p => (z.add p.1 p.2).2) z

/-! ## The order of the vector -/

/-- The entries ascend, no member occurs twice and no score is a NaN. -/
structure Sorted (z : Zset) : Prop where
  ascending : z.entries.Pairwise fun a b => cmpEntry a b = .lt
  members : (z.entries.map Prod.fst).Nodup
  numbers : ∀ p ∈ z.entries, p.2.isNan = false

theorem findIndex_none {z : Zset} {member : Bytes} (h : member ∉ z.entries.map Prod.fst) :
    z.findIndex member = none := by
  unfold findIndex
  rw [List.findIdx?_eq_none_iff]
  intro p hp
  rw [beq_eq_false_iff_ne]
  rintro rfl
  exact h (List.mem_map_of_mem hp)

/-- A new entry above all others goes to the end. -/
theorem add_last {z : Zset} {p : Bytes × F64} (hm : p.1 ∉ z.entries.map Prod.fst)
    (h : ∀ q ∈ z.entries, cmpEntry q p = .lt) : (z.add p.1 p.2).2 = ⟨z.entries ++ [p]⟩ := by
  unfold add
  rw [findIndex_none hm]
  simp only
  have hsplit : SplitAt (fun q => cmpEntry q p == .lt) z.entries z.entries.length := by
    refine ⟨Nat.le_refl _, fun i q hq => ?_⟩
    have hi := (List.getElem?_eq_some_iff.mp hq).1
    simp [h q (List.mem_of_getElem? hq), hi]
  rw [partitionPoint_eq hsplit, List.insertIdx_length_self]

/-- A new member is put somewhere between the others. -/
theorem add_perm {z : Zset} {p : Bytes × F64} (hm : p.1 ∉ z.entries.map Prod.fst) :
    (z.add p.1 p.2).2.entries.Perm (p :: z.entries) := by
  unfold add
  rw [findIndex_none hm]
  exact List.perm_insertIdx p z.entries (partitionPoint_le _ _)

/-- Adding different members keeps all of them, with the scores they came with. -/
theorem addAll_perm : ∀ (pairs : List (Bytes × F64)) (z : Zset),
    ((z.entries ++ pairs).map Prod.fst).Nodup → (addAll pairs z).entries.Perm (z.entries ++ pairs)
  | [], z, _ => by
    rw [List.append_nil]
    exact List.Perm.refl _
  | p :: pairs, z, h => by
    have hmid : (z.entries ++ p :: pairs).Perm (p :: z.entries ++ pairs) := List.perm_middle
    have hnodup := (hmid.map Prod.fst).nodup_iff.mp h
    have hm : p.1 ∉ z.entries.map Prod.fst := by
      rw [List.cons_append, List.map_cons, List.nodup_cons, List.map_append, List.mem_append] at hnodup
      exact fun hc => hnodup.1 (.inl hc)
    have hadd := (add_perm hm).append_right pairs
    have hrest := addAll_perm pairs (z.add p.1 p.2).2 ((hadd.map Prod.fst).nodup_iff.mpr hnodup)
    exact (hrest.trans hadd).trans hmid.symm

/-- **Adding the entries of a sorted vector in order rebuilds the vector.** -/
theorem addAll_sorted : ∀ (pairs : List (Bytes × F64)) (z : Zset),
    Sorted ⟨z.entries ++ pairs⟩ → addAll pairs z = ⟨z.entries ++ pairs⟩
  | [], z, _ => by simp [addAll]
  | p :: pairs, z, h => by
    have hlt : ∀ q ∈ z.entries, cmpEntry q p = .lt := by
      intro q hq
      exact (List.pairwise_append.mp h.ascending).2.2 q hq p (by simp)
    have hm : p.1 ∉ z.entries.map Prod.fst := by
      have := h.members
      simp only [List.map_append, List.map_cons] at this
      intro hc
      exact (List.nodup_append.mp this).2.2 p.1 hc p.1 (by simp) rfl
    have hz := add_last hm hlt
    show addAll pairs (z.add p.1 p.2).2 = _
    rw [hz, addAll_sorted pairs ⟨z.entries ++ [p]⟩ (by simpa using h)]
    simp

end Zset

end Klyro
