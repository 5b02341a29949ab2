import Klyro.Types.Memory.Fusing
import Mathlib.Data.List.GetD

/-!
# Hits, id by id

What a fusion makes of each id, over any numbers.

* `rows_eq` — one row for every id that arrives, with what the two lists say of it.
* `ranks_eq`, `component_eq` — a component as a function of the score.
* `hits_eq` — the hits before they are sorted: one for every id with a record.
-/

set_option autoImplicit false

namespace Klyro

/-! ## One row for every id -/

namespace Numbers

section rows

variable {α : Type} (N : Numbers α)

/-- A row of an id that is new. -/
def blank (id : Bytes) : FuseRow α := ⟨id, N.zero, N.zero, false, false⟩

/-- What the two lists say of an id. -/
def candidate (keyword vector : List (Bytes × α)) (id : Bytes) : FuseRow α :=
  ⟨id, (keyword.lookup id).getD N.zero, (vector.lookup id).getD N.zero, (keyword.lookup id).isSome,
    (vector.lookup id).isSome⟩

/-- The ids in the order they arrive. -/
def arrived (keyword vector : List (Bytes × α)) : List Bytes :=
  keyword.map Prod.fst ++ (vector.map Prod.fst).filter fun id => id ∉ keyword.map Prod.fst

variable {N} {f : FuseRow α → FuseRow α} {id : Bytes}

theorem onRow_new : ∀ {rows : List (FuseRow α)}, id ∉ rows.map FuseRow.id →
    N.onRow id f rows = rows ++ [f (N.blank id)]
  | [], _ => rfl
  | r :: rows, h => by
    rw [List.map_cons, List.mem_cons, not_or] at h
    rw [onRow, if_neg (Ne.symm h.1), onRow_new h.2, List.cons_append]

theorem onRow_there : ∀ {rows : List (FuseRow α)}, (rows.map FuseRow.id).Nodup →
    id ∈ rows.map FuseRow.id → N.onRow id f rows = rows.map fun r => if r.id = id then f r else r
  | [], _, h => by cases h
  | r :: rows, hn, h => by
    rw [List.map_cons, List.nodup_cons] at hn
    rw [onRow, List.map_cons]
    by_cases hid : r.id = id
    · rw [if_pos hid, if_pos hid]
      congr 1
      refine (List.map_congr_left fun other ho => ?_).trans (List.map_id rows) |>.symm
      have hne : other.id ≠ id := by
        rintro hother
        refine hn.1 ?_
        rw [hid, ← hother]
        exact List.mem_map_of_mem ho
      exact if_neg hne
    · rw [if_neg hid, if_neg hid]
      rw [List.map_cons, List.mem_cons] at h
      rw [onRow_there hn.2 (h.resolve_left (Ne.symm hid))]

/-- What a list leaves of a row. -/
def told (step : Bytes × α → FuseRow α → FuseRow α) (list : List (Bytes × α))
    (r : FuseRow α) : FuseRow α :=
  match list.lookup r.id with
  | some v => step (r.id, v) r
  | none => r

theorem lookup_eq_none {list : List (Bytes × α)} (h : id ∉ list.map Prod.fst) :
    list.lookup id = none := by
  rw [List.lookup_eq_none_iff]
  intro p hp
  have hne : id ≠ p.1 := by
    rintro rfl
    exact h (List.mem_map_of_mem hp)
  simpa using hne

/-- **The pass over one list**: the rows that are there are told, the others follow. -/
theorem foldl_onRow (step : Bytes × α → FuseRow α → FuseRow α)
    (hstep : ∀ p r, (step p r).id = r.id) : ∀ (list : List (Bytes × α)) (rows : List (FuseRow α)),
    (list.map Prod.fst).Nodup → (rows.map FuseRow.id).Nodup →
    list.foldl (fun rows p => N.onRow p.1 (step p) rows) rows = rows.map (told step list) ++
      (list.filter fun p => p.1 ∉ rows.map FuseRow.id).map fun p => step p (N.blank p.1)
  | [], rows, _, _ => by
    rw [List.foldl_nil, List.filter_nil, List.map_nil, List.append_nil]
    exact (List.map_id rows).symm
  | p :: list, rows, hn, hrows => by
    rw [List.map_cons, List.nodup_cons] at hn
    have hlast : list.lookup p.1 = none := lookup_eq_none hn.1
    rw [List.foldl_cons]
    by_cases hp : p.1 ∈ rows.map FuseRow.id
    · have hids : (rows.map fun r => if r.id = p.1 then step p r else r).map FuseRow.id =
          rows.map FuseRow.id := by
        rw [List.map_map]
        refine List.map_congr_left fun r _ => ?_
        rw [Function.comp_apply]
        split
        · exact hstep p r
        · rfl
      rw [onRow_there hrows hp, foldl_onRow step hstep list _ hn.2 (by rw [hids]; exact hrows), hids,
        List.filter_cons_of_neg (by simpa using hp), List.map_map]
      congr 1
      refine List.map_congr_left fun r _ => ?_
      rw [Function.comp_apply]
      unfold told
      by_cases hid : r.id = p.1
      · rw [if_pos hid, hstep, hid, hlast, List.lookup_cons, beq_self_eq_true]
      · rw [if_neg hid, List.lookup_cons, beq_false_of_ne hid]
    · have hnew : ((rows ++ [step p (N.blank p.1)]).map FuseRow.id) =
          rows.map FuseRow.id ++ [p.1] := by
        rw [List.map_append, List.map_singleton, hstep]
        rfl
      have hnodup : ((rows ++ [step p (N.blank p.1)]).map FuseRow.id).Nodup := by
        rw [hnew, List.nodup_append]
        refine ⟨hrows, List.nodup_singleton _, ?_⟩
        rintro a ha b hb rfl
        rw [List.mem_singleton] at hb
        exact hp (hb ▸ ha)
      rw [onRow_new hp, foldl_onRow step hstep list _ hn.2 hnodup, hnew,
        List.filter_cons_of_pos (by simpa using hp),
        List.map_append, List.map_singleton, List.map_cons, List.append_assoc, List.singleton_append]
      have htold : rows.map (told step list) = rows.map (told step (p :: list)) := by
        refine List.map_congr_left fun r hr => ?_
        have hne : r.id ≠ p.1 := by
          rintro hid
          exact hp (hid ▸ List.mem_map_of_mem hr)
        unfold told
        rw [List.lookup_cons, beq_false_of_ne hne]
      have hself : told step list (step p (N.blank p.1)) = step p (N.blank p.1) := by
        unfold told
        rw [hstep, show (N.blank p.1).id = p.1 from rfl, hlast]
      have hfilter : (list.filter fun q => q.1 ∉ rows.map FuseRow.id ++ [p.1]) =
          list.filter fun q => q.1 ∉ rows.map FuseRow.id := by
        refine List.filter_congr fun q hq => ?_
        have hne : q.1 ≠ p.1 := by
          rintro hid
          exact hn.1 (hid ▸ List.mem_map_of_mem hq)
        simp [hne]
      rw [htold, hself, hfilter]

theorem lookup_of_mem : ∀ {list : List (Bytes × α)} {p : Bytes × α}, (list.map Prod.fst).Nodup →
    p ∈ list → list.lookup p.1 = some p.2
  | [], _, _, h => by cases h
  | q :: list, p, hn, h => by
    rw [List.map_cons, List.nodup_cons] at hn
    rcases List.mem_cons.mp h with rfl | h
    · rw [List.lookup_cons, beq_self_eq_true]
    · have hne : p.1 ≠ q.1 := by
        rintro hid
        exact hn.1 (hid ▸ List.mem_map_of_mem h)
      rw [List.lookup_cons, beq_false_of_ne hne]
      exact lookup_of_mem hn.2 h

/-- **One row for every id that arrives**, with what the lists say of it. -/
theorem rows_eq {keyword vector : List (Bytes × α)} (hk : (keyword.map Prod.fst).Nodup)
    (hv : (vector.map Prod.fst).Nodup) :
    N.rows keyword vector = (arrived keyword vector).map (N.candidate keyword vector) := by
  have hfirst : keyword.foldl (fun rows p =>
      N.onRow p.1 (fun r => { r with rawKeyword := p.2, hadKeyword := true }) rows) [] =
      keyword.map fun p => ⟨p.1, p.2, N.zero, true, false⟩ := by
    rw [foldl_onRow (fun p r => { r with rawKeyword := p.2, hadKeyword := true })
      (fun _ _ => rfl) keyword [] hk List.nodup_nil, List.filter_eq_self.mpr (by simp)]
    rfl
  have hids : (keyword.map fun p => (⟨p.1, p.2, N.zero, true, false⟩ : FuseRow α)).map
      FuseRow.id = keyword.map Prod.fst := by
    rw [List.map_map]
    rfl
  unfold rows arrived
  dsimp only
  rw [hfirst, foldl_onRow (fun p r => { r with rawVector := p.2, hadVector := true })
    (fun _ _ => rfl) vector _ hv (by rw [hids]; exact hk), hids, List.map_append, List.map_map,
    List.map_map, List.filter_map, List.map_map]
  congr 1
  · refine List.map_congr_left fun p hp => ?_
    rw [Function.comp_apply, Function.comp_apply]
    unfold told candidate
    rw [lookup_of_mem hk hp]
    cases vector.lookup p.1 with
    | none => rfl
    | some v => rfl
  · refine List.map_congr_left fun p hp => ?_
    obtain ⟨hp, hnew⟩ := List.mem_filter.mp hp
    rw [Function.comp_apply]
    unfold candidate
    rw [lookup_of_mem hv hp, lookup_eq_none (by simpa using hnew)]
    rfl

theorem arrived_nodup {keyword vector : List (Bytes × α)} (hk : (keyword.map Prod.fst).Nodup)
    (hv : (vector.map Prod.fst).Nodup) : (arrived keyword vector).Nodup := by
  unfold arrived
  rw [List.nodup_append]
  refine ⟨hk, hv.filter _, ?_⟩
  rintro a ha b hb rfl
  obtain ⟨-, hnew⟩ := List.mem_filter.mp hb
  simp [ha] at hnew

theorem mem_arrived {keyword vector : List (Bytes × α)} :
    id ∈ arrived keyword vector ↔ id ∈ keyword.map Prod.fst ∨ id ∈ vector.map Prod.fst := by
  unfold arrived
  rw [List.mem_append, List.mem_filter]
  by_cases hid : id ∈ keyword.map Prod.fst
  · exact ⟨fun _ => .inl hid, fun _ => .inl hid⟩
  · refine ⟨fun h => .inr (h.resolve_left hid).1, fun h => .inr ⟨h.resolve_left hid, ?_⟩⟩
    simpa using hid

end rows

/-! ## Components as functions of the score -/

section components

variable {α β : Type} [LinearOrder β] (N : Numbers α)

/-- The comparisons of the scores are those of their keys. -/
structure Ordered (key : α → β) (scores : List α) : Prop where
  cmp : ∀ a ∈ scores, ∀ b ∈ scores, N.cmp a b = compare (key a) (key b)
  same : ∀ a ∈ scores, ∀ b ∈ scores, N.same a b = decide (key a = key b)

/-- The rank of a score: one more than the number of better ones. -/
def rank (scores : List α) (v : α) : α :=
  N.add (N.ofNat (scores.countP fun x => N.cmp x v == .gt)) N.one

/-- A score, scaled among those that were found. -/
def scale (found : List α) : Fusion → α → α
  | .linear, v =>
    let low := N.lowest found
    let spread := N.sub (N.highest found) low
    if N.less N.zero spread then N.div (N.sub v low) spread else N.one
  | .rrf, v => N.div N.one (N.add N.rrfK (N.rank found v))

variable {N} {key : α → β} {scores : List α}

theorem Ordered.gt_eq (h : N.Ordered key scores) {x v : α} (hx : x ∈ scores) (hv : v ∈ scores) :
    (N.cmp x v == .gt) = decide (key v < key x) := by
  rw [h.cmp x hx v hv, Bool.eq_iff_iff, beq_iff_eq, compare_gt_iff_gt, decide_eq_true_iff]

theorem Ordered.rank_eq (h : N.Ordered key scores) {v : α} (hv : v ∈ scores) :
    N.rank scores v =
      N.add (N.ofNat (scores.countP fun x => decide (key v < key x))) N.one := by
  unfold rank
  rw [List.countP_congr fun x hx => by rw [h.gt_eq hx hv]]

theorem getD_mem {i : Nat} (hi : i < scores.length) : scores.getD i N.zero ∈ scores := by
  rw [List.getD_eq_getElem _ _ hi]
  exact List.getElem_mem hi

theorem map_getD_range : (List.range scores.length).map (fun i => scores.getD i N.zero) = scores := by
  refine List.ext_getElem (by simp) fun i h _ => ?_
  rw [List.length_map, List.length_range] at h
  rw [List.getElem_map, List.getElem_range, List.getD_eq_getElem _ _ h]

/-- The rank the walk gives to the position `i`. -/
def nextRank (N : Numbers α) (scores : List α) (i position : Nat) (previous : Option Nat) (rank : α) :
    α :=
  match previous with
  | none => N.one
  | some j =>
    if !N.same (scores.getD i N.zero) (scores.getD j N.zero) then N.add (N.ofNat position) N.one
    else rank

theorem ranksWalk_cons (i : Nat) (order : List Nat) (position : Nat) (previous : Option Nat) (rank : α)
    (out : List α) : N.ranksWalk scores (i :: order) position previous rank out =
      N.ranksWalk scores order (position + 1) (some i) (N.nextRank scores i position previous rank)
        (out.set i (N.nextRank scores i position previous rank)) := rfl

/-- The positions in front of the walk and behind it, best score first. -/
structure Walking (N : Numbers α) (key : α → β) (scores : List α) (done rest : List Nat) : Prop where
  perm : (done ++ rest).Perm (List.range scores.length)
  sorted : (done ++ rest).Pairwise
    (fun i j => key (scores.getD j N.zero) ≤ key (scores.getD i N.zero))

namespace Walking

variable {done rest : List Nat} {i : Nat}

theorem lt (h : Walking N key scores done rest) {j : Nat} (hj : j ∈ done ++ rest) :
    j < scores.length :=
  List.mem_range.mp (h.perm.mem_iff.mp hj)

/-- The better scores are among those that are done. -/
theorem count (h : Walking N key scores done (i :: rest)) :
    scores.countP (fun x => decide (key (scores.getD i N.zero) < key x)) =
      done.countP fun j => decide (key (scores.getD i N.zero) < key (scores.getD j N.zero)) := by
  have hall : ((done ++ i :: rest).map fun j => scores.getD j N.zero).Perm scores := by
    have hmap := h.perm.map fun j => scores.getD j N.zero
    rwa [map_getD_range] at hmap
  have hnone : (i :: rest).countP ((fun x => decide (key (scores.getD i N.zero) < key x)) ∘
      fun j => scores.getD j N.zero) = 0 := by
    rw [List.countP_eq_zero]
    intro j hj
    have hfirst := (List.pairwise_cons.mp (List.pairwise_append.mp h.sorted).2.1).1
    have hle : key (scores.getD j N.zero) ≤ key (scores.getD i N.zero) := by
      rcases List.mem_cons.mp hj with rfl | hj
      · exact le_rfl
      · exact hfirst j hj
    simpa using hle
  rw [← hall.countP_eq, List.countP_map, List.countP_append, hnone, Nat.add_zero]
  rfl

/-- Everything that is done is at least as good as the last of it. -/
theorem last_le (h : Walking N key scores done rest) {j k : Nat} (hj : done.getLast? = some j)
    (hk : k ∈ done) : key (scores.getD j N.zero) ≤ key (scores.getD k N.zero) := by
  obtain ⟨front, rfl⟩ := List.getLast?_eq_some_iff.mp hj
  rcases List.mem_append.mp hk with hk | hk
  · exact (List.pairwise_append.mp (List.pairwise_append.mp h.sorted).1).2.2 k hk j (by simp)
  · rw [List.mem_singleton.mp hk]

/-- The rank that is given is the rank of the score: it changes where the score does. -/
theorem next (h : Walking N key scores done (i :: rest)) (ho : N.Ordered key scores)
    (hone : N.add (N.ofNat 0) N.one = N.one) {rank : α}
    (hrank : ∀ j, done.getLast? = some j → rank = N.rank scores (scores.getD j N.zero)) :
    N.nextRank scores i done.length done.getLast? rank = N.rank scores (scores.getD i N.zero) := by
  have hmem := getD_mem (N := N) (h.lt (by simp : i ∈ done ++ i :: rest))
  rw [ho.rank_eq hmem, h.count]
  unfold nextRank
  cases hlast : done.getLast? with
  | none => rw [List.getLast?_eq_none_iff.mp hlast, List.countP_nil, hone]
  | some j =>
    have hj : j ∈ done := List.mem_of_getLast? hlast
    have hjmem := getD_mem (N := N) (h.lt (List.mem_append_left _ hj))
    have hle : key (scores.getD i N.zero) ≤ key (scores.getD j N.zero) :=
      (List.pairwise_append.mp h.sorted).2.2 j hj i (by simp)
    dsimp only
    rw [ho.same _ hmem _ hjmem]
    by_cases heq : key (scores.getD i N.zero) = key (scores.getD j N.zero)
    · rw [hrank j hlast, ho.rank_eq hjmem, ← h.count, heq]
      simp
    · have hfull : done.countP (fun k =>
          decide (key (scores.getD i N.zero) < key (scores.getD k N.zero))) = done.length := by
        rw [List.countP_eq_length]
        intro k hk
        exact decide_eq_true (lt_of_lt_of_le (lt_of_le_of_ne hle heq) (h.last_le hlast hk))
      rw [hfull, decide_eq_false heq]
      rfl

theorem step (h : Walking N key scores done (i :: rest)) :
    Walking N key scores (done ++ [i]) rest := by
  obtain ⟨hperm, hsorted⟩ := h
  have happend : done ++ i :: rest = (done ++ [i]) ++ rest := by simp
  rw [happend] at hperm hsorted
  exact ⟨hperm, hsorted⟩

end Walking

/-- **The walk** writes the rank of every position that is left. -/
theorem ranksWalk_spec (ho : N.Ordered key scores) (hone : N.add (N.ofNat 0) N.one = N.one) :
    ∀ (rest done : List Nat) (rank : α) (out : List α), Walking N key scores done rest →
      (∀ j, done.getLast? = some j → rank = N.rank scores (scores.getD j N.zero)) →
      out.length = scores.length →
      (N.ranksWalk scores rest done.length done.getLast? rank out).length = scores.length ∧
        ∀ k, k < scores.length →
          (N.ranksWalk scores rest done.length done.getLast? rank out).getD k N.zero =
            if k ∈ rest then N.rank scores (scores.getD k N.zero) else out.getD k N.zero
  | [], done, rank, out, _, _, hout => by
    rw [ranksWalk]
    exact ⟨hout, fun k _ => by simp⟩
  | i :: rest, done, rank, out, h, hrank, hout => by
    obtain ⟨hlen, hwritten⟩ := ranksWalk_spec ho hone rest (done ++ [i])
      (N.rank scores (scores.getD i N.zero)) (out.set i (N.rank scores (scores.getD i N.zero))) h.step
      (fun j hj => by
        rw [List.getLast?_append_of_ne_nil _ (by simp), List.getLast?_singleton] at hj
        cases hj
        rfl)
      (by rw [List.length_set]; exact hout)
    rw [List.length_append, List.length_singleton, List.getLast?_concat] at hlen hwritten
    rw [ranksWalk_cons, h.next ho hone hrank]
    refine ⟨hlen, fun k hk => ?_⟩
    rw [hwritten k hk]
    by_cases hki : k = i
    · subst hki
      have hnot : k ∉ rest := by
        intro hmem
        exact (List.nodup_append.mp (h.step.perm.nodup_iff.mpr List.nodup_range)).2.2 k (by simp) k
          hmem rfl
      rw [if_neg hnot, if_pos List.mem_cons_self,
        List.getD_eq_getElem _ _ (by rw [List.length_set, hout]; exact hk)]
      exact List.getElem_set_self _
    · have hiff : k ∈ i :: rest ↔ k ∈ rest := by simp [hki]
      simp only [hiff]
      split
      · rfl
      · rw [List.getD_eq_getElem (out.set i _) _ (by rw [List.length_set, hout]; exact hk),
          List.getD_eq_getElem out _ (by omega)]
        exact List.getElem_set_ne (Ne.symm hki) _

/-- **Every score gets its rank.** -/
theorem ranks_eq (ho : N.Ordered key scores) (hone : N.add (N.ofNat 0) N.one = N.one) :
    N.ranks scores = scores.map (N.rank scores) := by
  have hcmp : ∀ i ∈ List.range scores.length, ∀ j ∈ List.range scores.length,
      N.cmp (scores.getD j N.zero) (scores.getD i N.zero) =
        compare (key (scores.getD j N.zero)) (key (scores.getD i N.zero)) := fun i hi j hj =>
    ho.cmp _ (getD_mem (List.mem_range.mp hj)) _ (getD_mem (List.mem_range.mp hi))
  have hwalking : Walking N key scores [] (sortBy
      (fun i j => N.cmp (scores.getD j N.zero) (scores.getD i N.zero)) (List.range scores.length)) := by
    refine ⟨sortBy_perm _ _, ?_⟩
    rw [List.nil_append, sortBy_congr hcmp]
    have hsorted := @sortBy_pairwise Nat (fun i j =>
      compare (key (scores.getD j N.zero)) (key (scores.getD i N.zero))) _ (List.range scores.length)
    refine hsorted.imp fun {i j} hij => ?_
    exact not_lt.mp fun hlt => hij (compare_gt_iff_gt.mpr hlt)
  have hzeros : (List.replicate scores.length N.zero).length = scores.length := List.length_replicate
  obtain ⟨hlen, hwritten⟩ := ranksWalk_spec ho hone _ [] N.zero
    (List.replicate scores.length N.zero) hwalking (fun j hj => by cases hj) hzeros
  unfold ranks
  dsimp only
  refine List.ext_getElem (hlen.trans (List.length_map _).symm) fun k hk hk' => ?_
  rw [List.length_map] at hk'
  have hin : k ∈ sortBy (fun i j => N.cmp (scores.getD j N.zero) (scores.getD i N.zero))
      (List.range scores.length) := mem_sortBy.mpr (List.mem_range.mpr hk')
  have hk₂ := hwritten k hk'
  rw [if_pos hin, List.getD_eq_getElem scores _ hk'] at hk₂
  rw [List.getElem_map, ← hk₂]
  exact (List.getD_eq_getElem _ _ hk).symm

theorem distribute_eq (raw : Bytes → Option α) (g : α → α) : ∀ ids : List Bytes,
    N.distribute (ids.map fun id => (raw id).isSome) ((ids.filterMap raw).map g) =
      ids.map fun id => ((raw id).map g).getD N.zero
  | [] => rfl
  | id :: ids => by
    have ih := distribute_eq raw g ids
    rw [List.map_cons, List.map_cons]
    cases hid : raw id with
    | none =>
      rw [List.filterMap_cons_none hid, Option.isSome_none, distribute, ih]
      rfl
    | some v =>
      rw [List.filterMap_cons_some hid, List.map_cons, Option.isSome_some, distribute, ih]
      rfl

theorem found_eq (raw : Bytes → Option α) : ∀ ids : List Bytes,
    (((ids.map fun id => (raw id).getD N.zero).zip (ids.map fun id => (raw id).isSome)).filter
      fun p => p.2).map Prod.fst = ids.filterMap raw
  | [] => rfl
  | id :: ids => by
    have ih := found_eq raw ids
    rw [List.map_cons, List.map_cons, List.zip_cons_cons]
    cases hid : raw id with
    | none =>
      rw [List.filterMap_cons_none hid, List.filter_cons_of_neg (by simp)]
      exact ih
    | some v =>
      rw [List.filterMap_cons_some hid, List.filter_cons_of_pos (by simp), List.map_cons, ih]
      rfl

/-- **A component, id by id**: the scaled score of those that have one. -/
theorem component_eq (raw : Bytes → Option α) (ids : List Bytes) {fusion : Fusion}
    (ho : fusion = .rrf → N.Ordered key (ids.filterMap raw))
    (hone : N.add (N.ofNat 0) N.one = N.one) :
    N.component (ids.map fun id => (raw id).getD N.zero) (ids.map fun id => (raw id).isSome) fusion =
      ids.map fun id => ((raw id).map (N.scale (ids.filterMap raw) fusion)).getD N.zero := by
  have hpresent : ((ids.map fun id => (raw id).getD N.zero).zip
      (ids.map fun id => (raw id).isSome)).map Prod.snd = ids.map fun id => (raw id).isSome := by
    refine List.map_snd_zip ?_
    rw [List.length_map, List.length_map]
  -- the scores are scaled one by one, under either fusion
  have hscaled : N.component (ids.map fun id => (raw id).getD N.zero)
      (ids.map fun id => (raw id).isSome) fusion =
      if (ids.filterMap raw).isEmpty then List.replicate ids.length N.zero
      else N.distribute (ids.map fun id => (raw id).isSome)
        ((ids.filterMap raw).map (N.scale (ids.filterMap raw) fusion)) := by
    unfold component
    dsimp only
    rw [found_eq, hpresent, List.length_map]
    cases fusion with
    | linear => rfl
    | rrf =>
      dsimp only
      rw [ranks_eq (ho rfl) hone, List.map_map]
      rfl
  rw [hscaled]
  split
  · rename_i hempty
    have hnone : ids.filterMap raw = [] := List.isEmpty_iff.mp hempty
    rw [← List.map_const']
    refine List.map_congr_left fun id hid => ?_
    rw [List.filterMap_eq_nil_iff.mp hnone id hid]
    rfl
  · exact distribute_eq raw _ ids

end components

/-! ## The hits, id by id -/

section hits

variable {α β : Type} [LinearOrder β] (N : Numbers α) {key : α → β} {list keyword vector : List (Bytes × α)}

/-- The scores a list gives to the ids. -/
def found (list : List (Bytes × α)) (ids : List Bytes) : List α := ids.filterMap fun id => list.lookup id

/-- What a list contributes to an id: its scaled score, or nothing. -/
def signal (list : List (Bytes × α)) (ids : List Bytes) (fusion : Fusion) (id : Bytes) : α :=
  ((list.lookup id).map (N.scale (found list ids) fusion)).getD N.zero

/-- The hit of an id with a record. -/
def hit (keyword vector : List (Bytes × α)) (lookup : Bytes → Option (α × α)) (weights : Signals α)
    (fusion : Fusion) (id : Bytes) : Option (Fused α) :=
  (lookup id).map fun record =>
    { id := id
      score := N.weigh weights ⟨N.signal keyword (arrived keyword vector) fusion id,
        N.signal vector (arrived keyword vector) fusion id, record.1, record.2⟩
      keyword := (keyword.lookup id).getD N.zero
      vector := (vector.lookup id).getD N.zero
      recency := record.1 }

variable {N}

theorem Ordered.of_mem {xs ys : List α} (h : N.Ordered key ys) (hmem : ∀ x ∈ xs, x ∈ ys) :
    N.Ordered key xs where
  cmp a ha b hb := h.cmp a (hmem a ha) b (hmem b hb)
  same a ha b hb := h.same a (hmem a ha) b (hmem b hb)

theorem mem_of_lookup {id : Bytes} {v : α} (h : list.lookup id = some v) : (id, v) ∈ list := by
  obtain ⟨before, after, rfl, -⟩ := List.lookup_eq_some_iff.mp h
  simp

theorem mem_found {ids : List Bytes} {v : α} (h : v ∈ found list ids) : v ∈ list.map Prod.snd := by
  obtain ⟨id, -, hid⟩ := List.mem_filterMap.mp h
  exact List.mem_map.mpr ⟨(id, v), mem_of_lookup hid, rfl⟩

/-- The scores that are found are those of the list. -/
theorem found_perm {ids : List Bytes} (hn : (list.map Prod.fst).Nodup) (hids : ids.Nodup)
    (hall : ∀ id ∈ list.map Prod.fst, id ∈ ids) : (found list ids).Perm (list.map Prod.snd) := by
  have hpairs : found list ids =
      (ids.filterMap fun id => (list.lookup id).map (Prod.mk id)).map Prod.snd := by
    unfold found
    rw [List.map_filterMap]
    refine List.filterMap_congr fun id _ => ?_
    rw [Option.map_map]
    exact (congrFun Option.map_id _).symm
  have hfst : (ids.filterMap fun id => (list.lookup id).map (Prod.mk id)).map Prod.fst =
      ids.filter fun id => (list.lookup id).isSome := by
    rw [List.map_filterMap, ← List.filterMap_eq_filter]
    refine List.filterMap_congr fun id _ => ?_
    cases hid : list.lookup id with
    | none => simp [Option.guard, hid]
    | some v => simp [Option.guard, hid]
  rw [hpairs]
  refine List.Perm.map _ ?_
  refine (List.perm_ext_iff_of_nodup ?_ (hn.of_map _)).mpr ?_
  · exact List.Nodup.of_map Prod.fst (by rw [hfst]; exact hids.filter _)
  · rintro ⟨id, v⟩
    rw [List.mem_filterMap]
    constructor
    · rintro ⟨id', -, h⟩
      obtain ⟨v', hv, he⟩ := Option.map_eq_some_iff.mp h
      cases he
      exact mem_of_lookup hv
    · intro h
      refine ⟨id, hall id (List.mem_map_of_mem h), ?_⟩
      rw [lookup_of_mem hn h]
      rfl

/-- **The hits before they are sorted**: one for every id with a record. -/
theorem hits_eq (hk : (keyword.map Prod.fst).Nodup) (hv : (vector.map Prod.fst).Nodup)
    {fusion : Fusion} (hko : fusion = .rrf → N.Ordered key (keyword.map Prod.snd))
    (hvo : fusion = .rrf → N.Ordered key (vector.map Prod.snd))
    (hone : N.add (N.ofNat 0) N.one = N.one) (lookup : Bytes → Option (α × α)) (weights : Signals α) :
    N.hits keyword vector lookup weights fusion =
      (arrived keyword vector).filterMap (N.hit keyword vector lookup weights fusion) := by
  have hkc := component_eq (fun id => keyword.lookup id) (arrived keyword vector)
    (fun h => (hko h).of_mem fun x hx => mem_found hx) hone
  have hvc := component_eq (fun id => vector.lookup id) (arrived keyword vector)
    (fun h => (hvo h).of_mem fun x hx => mem_found hx) hone
  unfold hits
  dsimp only
  rw [rows_eq hk hv]
  simp only [List.map_map]
  rw [show (FuseRow.rawKeyword ∘ N.candidate keyword vector) =
      fun id => (keyword.lookup id).getD N.zero from rfl,
    show (FuseRow.hadKeyword ∘ N.candidate keyword vector) =
      fun id => (keyword.lookup id).isSome from rfl,
    show (FuseRow.rawVector ∘ N.candidate keyword vector) =
      fun id => (vector.lookup id).getD N.zero from rfl,
    show (FuseRow.hadVector ∘ N.candidate keyword vector) =
      fun id => (vector.lookup id).isSome from rfl, hkc, hvc, List.zip_map', List.zip_map',
    List.filterMap_map]
  rfl

end hits

end Numbers

end Klyro
