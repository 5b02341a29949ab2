import Klyro.Types.Zset
import Klyro.Util.Order

/-!
# What the mutators do to a sorted set

Scores are compared with `partial_cmp`, so the order of the entries is one only while no score is a
NaN.

* `entryKey` — the number and the name an entry is ordered by.
* `Zset.others` — the entries of the other members.
* `Zset.sorted_add`, `Zset.sorted_of_sublist` — the order is kept.
* `Zset.score_add` — one score is set, the others are as they were.
* `Zset.rank_eq`, `Zset.pop_min`, `Zset.pop_max` — ranks and pops.
* `Zset.Answers` — what the operations of a sorted set answer.
-/

set_option autoImplicit false

namespace Klyro

/-! ## The order of the entries -/

/-- What an entry is ordered by. -/
def entryKey (p : Bytes × F64) : Int × Bytes := (p.2.key, p.1)

theorem cmpEntry_key {p q : Bytes × F64} (hp : p.2.isNan = false) (hq : q.2.isNan = false) :
    cmpEntry p q = cmpRanked (entryKey p) (entryKey q) := by
  unfold cmpEntry
  rw [cmpFloat_key hp hq]
  rfl

namespace Zset

variable {z : Zset} {member member' : Bytes} {score score' : F64}

/-- A part of a sorted set is sorted. -/
theorem sorted_of_sublist {z' : Zset} (h : z.Sorted) (hsub : z'.entries.Sublist z.entries) :
    z'.Sorted where
  ascending := h.ascending.sublist hsub
  members := h.members.sublist (hsub.map Prod.fst)
  numbers p hp := h.numbers p (hsub.subset hp)

theorem sorted_empty : Sorted {} := ⟨List.Pairwise.nil, List.nodup_nil, fun _ hp => by cases hp⟩

/-- The entries of the other members. -/
def others (z : Zset) (member : Bytes) : List (Bytes × F64) := z.entries.eraseP fun p => p.1 == member

theorem others_sublist (z : Zset) (member : Bytes) : (z.others member).Sublist z.entries :=
  List.eraseP_sublist

theorem others_eq (z : Zset) (member : Bytes) : z.others member =
    match z.findIndex member with
    | some idx => z.entries.eraseIdx idx
    | none => z.entries := by
  unfold others findIndex
  rw [List.eraseP_eq_eraseIdx]
  cases z.entries.findIdx? fun p => p.1 == member <;> rfl

theorem entries_rem (z : Zset) (member : Bytes) : (z.rem member).2.entries = z.others member := by
  rw [others_eq]
  unfold rem
  cases z.findIndex member <;> rfl

theorem entries_add (z : Zset) (member : Bytes) (score : F64) :
    (z.add member score).2.entries = (z.others member).insertIdx
      (partitionPoint (fun p => cmpEntry p (member, score) == .lt) (z.others member)) (member, score) := by
  rw [others_eq]
  rfl

theorem ne_of_mem_eraseP {p : Bytes × F64} {entries : List (Bytes × F64)}
    (hnodup : (entries.map Prod.fst).Nodup)
    (hp : p ∈ entries.eraseP fun q => q.1 == member) : p.1 ≠ member := by
  induction entries with
  | nil => cases hp
  | cons q entries ih =>
    rw [List.map_cons, List.nodup_cons] at hnodup
    cases h : q.1 == member with
    | true =>
      rw [List.eraseP_cons_of_pos (p := fun r : Bytes × F64 => r.1 == member) h] at hp
      rintro rfl
      exact hnodup.1 (beq_iff_eq.mp h ▸ List.mem_map_of_mem hp)
    | false =>
      rw [List.eraseP_cons_of_neg (p := fun r : Bytes × F64 => r.1 == member) (by simp [h])] at hp
      rcases List.mem_cons.mp hp with rfl | hp
      · exact beq_eq_false_iff_ne.mp h
      · exact ih hnodup.2 hp

theorem mem_others (hz : (z.entries.map Prod.fst).Nodup) {p : Bytes × F64} :
    p ∈ z.others member ↔ p ∈ z.entries ∧ p.1 ≠ member := by
  constructor
  · exact fun hp => ⟨List.mem_of_mem_eraseP hp, ne_of_mem_eraseP hz hp⟩
  · rintro ⟨hp, hne⟩
    exact (List.mem_eraseP_of_neg (by simpa using hne)).mpr hp

/-- What an addition files, in any order. -/
theorem mem_add (hz : (z.entries.map Prod.fst).Nodup) {p : Bytes × F64} :
    p ∈ (z.add member score).2.entries ↔ p = (member, score) ∨ p ∈ z.entries ∧ p.1 ≠ member := by
  rw [entries_add, List.mem_insertIdx (partitionPoint_le _ _), mem_others hz]

theorem nodup_add (hz : (z.entries.map Prod.fst).Nodup) :
    ((z.add member score).2.entries.map Prod.fst).Nodup := by
  have hperm : (z.add member score).2.entries.Perm ((member, score) :: z.others member) := by
    rw [entries_add]
    exact List.perm_insertIdx _ _ (partitionPoint_le _ _)
  rw [(hperm.map Prod.fst).nodup_iff, List.map_cons, List.nodup_cons]
  refine ⟨?_, hz.sublist ((others_sublist z member).map Prod.fst)⟩
  rw [List.mem_map]
  rintro ⟨p, hp, hm⟩
  exact ((mem_others hz).mp hp).2 hm

/-- **An addition keeps the order**, whatever the score, as long as it is a number. -/
theorem sorted_add (h : z.Sorted) (hscore : score.isNan = false) : (z.add member score).2.Sorted := by
  have hothers : Sorted ⟨z.others member⟩ := sorted_of_sublist h (others_sublist z member)
  have hnumber : ∀ p ∈ z.others member, p.2.isNan = false := hothers.numbers
  have hmonotone : (z.others member).Pairwise fun a b =>
      (cmpEntry b (member, score) == .lt) = true → (cmpEntry a (member, score) == .lt) = true := by
    refine hothers.ascending.imp_of_mem fun {a b} ha hb hab hlt => ?_
    rw [beq_iff_eq] at hlt ⊢
    rw [cmpEntry_key (hnumber a ha) (hnumber b hb)] at hab
    rw [cmpEntry_key (hnumber b hb) hscore] at hlt
    rw [cmpEntry_key (hnumber a ha) hscore]
    exact Std.TransCmp.lt_trans hab hlt
  have hsplit := splitAt_countP hmonotone
  have hpoint := partitionPoint_eq hsplit
  refine ⟨?_, nodup_add h.members, fun p hp => ?_⟩
  · rw [entries_add, hpoint]
    refine hsplit.pairwise_insertIdx hothers.ascending (fun p _ hlt => beq_iff_eq.mp hlt) ?_
    intro p hp hnot
    rw [beq_eq_false_iff_ne, cmpEntry_key (hnumber p hp) hscore] at hnot
    rw [cmpEntry_key hscore (hnumber p hp)]
    cases hc : cmpRanked (entryKey p) (entryKey (member, score)) with
    | lt => exact absurd hc hnot
    | eq =>
      have hkey := Std.LawfulEqCmp.eq_of_compare hc
      exact absurd (congrArg Prod.snd hkey) ((mem_others h.members).mp hp).2
    | gt => exact Std.OrientedCmp.lt_of_gt hc
  · rcases (mem_add h.members).mp hp with rfl | ⟨hp, -⟩
    · exact hscore
    · exact h.numbers p hp

/-! ## Scores and ranks -/

theorem findIndex_some {i : Nat} (h : z.findIndex member = some i) :
    ∃ score, z.entries[i]? = some (member, score) := by
  obtain ⟨hi, hp, -⟩ := List.findIdx?_eq_some_iff_getElem.mp h
  refine ⟨z.entries[i].2, ?_⟩
  rw [List.getElem?_eq_getElem hi, ← beq_iff_eq.mp hp]

/-- The score of a member is that of its entry. -/
theorem score_iff (hz : (z.entries.map Prod.fst).Nodup) :
    z.score member = some score ↔ (member, score) ∈ z.entries := by
  unfold Zset.score
  constructor
  · intro h
    obtain ⟨i, hi, hget⟩ := Option.bind_eq_some_iff.mp h
    obtain ⟨score', hentry⟩ := findIndex_some hi
    rw [hentry] at hget
    cases hget
    exact List.mem_of_getElem? hentry
  · intro h
    cases hi : z.findIndex member with
    | none =>
      unfold findIndex at hi
      rw [List.findIdx?_eq_none_iff] at hi
      have := hi _ h
      simp at this
    | some i =>
      obtain ⟨score', hentry⟩ := findIndex_some hi
      have hsame := List.inj_on_of_nodup_map hz (List.mem_of_getElem? hentry) h rfl
      rw [Option.bind_some, hentry, hsame]
      rfl

/-- **`add` sets one score** and leaves the others. -/
theorem score_add (hz : (z.entries.map Prod.fst).Nodup) :
    (z.add member score).2.score member' = if member' = member then some score else z.score member' := by
  refine Option.ext fun score' => ?_
  rw [score_iff (nodup_add hz), mem_add hz]
  by_cases h : member' = member
  · subst h
    simp [eq_comm]
  · rw [if_neg h, score_iff hz]
    simp [h]

/-- The entries before a position are those below the entry at it. -/
theorem splitAt_entry (h : z.Sorted) {i : Nat} {p : Bytes × F64} (hp : z.entries[i]? = some p) :
    SplitAt (fun q => cmpEntry q p == .lt) z.entries i := by
  have hi := (List.getElem?_eq_some_iff.mp hp).1
  have hlt : ∀ {j k : Nat} {q r : Bytes × F64}, z.entries[j]? = some q → z.entries[k]? = some r →
      j < k → cmpEntry q r = .lt := by
    intro j k q r hq hr hjk
    obtain ⟨hj, rfl⟩ := List.getElem?_eq_some_iff.mp hq
    obtain ⟨hk, rfl⟩ := List.getElem?_eq_some_iff.mp hr
    exact List.pairwise_iff_getElem.mp h.ascending j k hj hk hjk
  have hnumber : ∀ {j : Nat} {q : Bytes × F64}, z.entries[j]? = some q → q.2.isNan = false :=
    fun hq => h.numbers _ (List.mem_of_getElem? hq)
  refine ⟨hi.le, fun j q hq => ?_⟩
  rw [beq_iff_eq]
  constructor
  · intro hqp
    by_contra hj
    rw [cmpEntry_key (hnumber hq) (hnumber hp)] at hqp
    rcases Nat.lt_or_eq_of_le (Nat.le_of_not_lt hj) with hij | rfl
    · have hpq := hlt hp hq hij
      rw [cmpEntry_key (hnumber hp) (hnumber hq)] at hpq
      rw [Std.OrientedCmp.gt_of_lt hpq] at hqp
      cases hqp
    · cases hp.symm.trans hq
      have hself : cmpRanked (entryKey p) (entryKey p) = .eq := Std.ReflCmp.compare_self
      rw [hself] at hqp
      cases hqp
  · exact hlt hq hp

/-- **The rank of a member** is the number of entries below its own. -/
theorem rank_eq (h : z.Sorted) : z.rank member = (z.score member).map fun score =>
    z.entries.countP fun p => cmpEntry p (member, score) == .lt := by
  unfold rank Zset.score
  cases hi : z.findIndex member with
  | none => rfl
  | some i =>
    obtain ⟨score, hentry⟩ := findIndex_some hi
    rw [Option.bind_some, hentry, Option.map_some, Option.map_some, (splitAt_entry h hentry).countP_eq]

/-- The two ranks of a member add up. -/
theorem revRank_add_rank {i j : Nat} (hi : z.rank member = some i) (hj : z.revRank member = some j) :
    j + i = z.size - 1 := by
  unfold revRank at hj
  rw [hi] at hj
  cases hj
  obtain ⟨score, hentry⟩ := findIndex_some hi
  have := (List.getElem?_eq_some_iff.mp hentry).1
  unfold size
  dsimp only
  omega

/-! ## Pops -/

/-- The range from the first entry to the `n`th. -/
theorem resolveRange_first {len n : Nat} (hn : 0 < n) : resolveRange len 0 ((n : Int) - 1) =
    if len = 0 then none else some (0, min n len - 1) := by
  have hstop : ¬ (n : Int) - 1 < 0 := by omega
  unfold resolveRange
  dsimp only
  rw [if_neg (show ¬ (0 : Int) < 0 by omega), if_neg hstop]
  by_cases hlen : len = 0
  · rw [if_pos (.inl (by omega)), if_pos hlen]
  · rw [if_neg hlen, if_neg (by split <;> omega)]
    congr 2
    split <;> omega

/-- **A pop at the lower end** returns and takes away the range of its count. -/
theorem pop_min (z : Zset) {n : Nat} (hn : 0 < n) :
    (z.pop n false).1 = z.range 0 ((n : Int) - 1) ∧
      z.entries = (z.pop n false).1 ++ (z.pop n false).2.entries := by
  refine ⟨?_, (List.take_append_drop _ _).symm⟩
  show z.entries.take (min n z.entries.length) = z.range 0 ((n : Int) - 1)
  unfold range
  rw [resolveRange_first hn]
  by_cases hlen : z.entries.length = 0
  · rw [if_pos hlen, List.length_eq_zero_iff.mp hlen, List.take_nil]
  · rw [if_neg hlen]
    show z.entries.take (min n z.entries.length) = (z.entries.take (min n z.entries.length - 1 + 1)).drop 0
    rw [List.drop_zero, Nat.sub_add_cancel (by omega)]

/-- **A pop at the upper end**, whose range is read backwards. -/
theorem pop_max (z : Zset) {n : Nat} (hn : 0 < n) :
    (z.pop n true).1 = z.revRange 0 ((n : Int) - 1) ∧
      z.entries = (z.pop n true).2.entries ++ (z.pop n true).1.reverse := by
  have hpop : z.pop n true = ((z.entries.drop (z.entries.length - min n z.entries.length)).reverse,
      ⟨z.entries.take (z.entries.length - min n z.entries.length)⟩) := rfl
  rw [hpop, List.reverse_reverse]
  refine ⟨?_, (List.take_append_drop _ _).symm⟩
  unfold revRange
  dsimp only
  rw [resolveRange_first hn]
  by_cases hlen : z.entries.length = 0
  · rw [if_pos hlen, List.length_eq_zero_iff.mp hlen, List.drop_nil, List.reverse_nil]
  · rw [if_neg hlen]
    dsimp only
    rw [Nat.sub_zero, Nat.sub_add_cancel (by omega), List.take_length]
    congr 2
    omega

/-! ## All of it -/

/-- What the operations of a sorted set answer. -/
structure Answers (z : Zset) : Prop where
  add : ∀ member score member', (z.add member score).2.score member' =
    if member' = member then some score else z.score member'
  rank : ∀ member, z.rank member = (z.score member).map fun score =>
    z.entries.countP fun p => cmpEntry p (member, score) == .lt
  ranks : ∀ member i j, z.rank member = some i → z.revRank member = some j → j + i = z.size - 1
  popMin : ∀ n : Nat, 0 < n → (z.pop n false).1 = z.range 0 ((n : Int) - 1) ∧
    z.entries = (z.pop n false).1 ++ (z.pop n false).2.entries
  popMax : ∀ n : Nat, 0 < n → (z.pop n true).1 = z.revRange 0 ((n : Int) - 1) ∧
    z.entries = (z.pop n true).2.entries ++ (z.pop n true).1.reverse

theorem Sorted.answers (h : z.Sorted) : z.Answers where
  add _ _ _ := score_add h.members
  rank _ := rank_eq h
  ranks _ _ _ := revRank_add_rank
  popMin _ := pop_min z
  popMax _ := pop_max z

end Zset

end Klyro
