import Mathlib.Tactic.Linarith
import Mathlib.Tactic.Positivity
import Klyro.Types.Memory.Fused

/-!
# Faithful fusions

* `sortBy_strict` — a ranking in which every id occurs once is strict.
* `keepsKeywordOrder` — without rounding, a fusion that weighs the keyword scores alone keeps their
  order.
* `FusesFaithfully` — nothing is lost or invented, the ranking is sorted, and the order of arrival is
  ignored; `fusesFaithfully_iff` says when.
-/

set_option autoImplicit false

namespace Klyro

open SoftFloat

/-! ## Rankings -/

section rankings

variable {α β : Type} [LinearOrder β]

/-- Where every id occurs once, a ranking is strict: by key, the largest first, and then by id. -/
theorem sortBy_strict (key : α → β) (id : α → Bytes) {xs : List α} (h : (xs.map id).Nodup) :
    (sortBy (fun a b => (compare (key b) (key a)).then (cmpBytes (id a) (id b))) xs).Pairwise
      fun a b => key b < key a ∨ key a = key b ∧ cmpBytes (id a) (id b) = .lt := by
  have hids : Std.TransCmp fun a b : α => cmpBytes (id a) (id b) :=
    { eq_swap := Std.OrientedCmp.eq_swap, isLE_trans := Std.TransCmp.isLE_trans }
  have htrans : Std.TransCmp fun a b => (compare (key b) (key a)).then (cmpBytes (id a) (id b)) :=
    inferInstanceAs (Std.TransCmp (compareLex (fun a b => compare (key b) (key a))
      fun a b => cmpBytes (id a) (id b)))
  have hnodup : ((sortBy (fun a b => (compare (key b) (key a)).then (cmpBytes (id a) (id b))) xs).map
      id).Nodup := ((sortBy_perm _ xs).map id).nodup_iff.mpr h
  refine ((sortBy_pairwise xs).and (List.pairwise_map.mp hnodup)).imp fun {a b} hab => ?_
  obtain ⟨hne, hid⟩ := hab
  rcases lt_trichotomy (key b) (key a) with hlt | heq | hgt
  · exact .inl hlt
  · refine .inr ⟨heq.symm, ?_⟩
    rw [compare_eq_iff_eq.mpr heq] at hne
    cases hcmp : cmpBytes (id a) (id b) with
    | lt => rfl
    | eq => exact absurd (cmpBytes_eq _ _ hcmp) hid
    | gt => exact absurd hcmp hne
  · rw [compare_gt_iff_gt.mpr hgt] at hne
    exact absurd rfl hne

end rankings

/-- A larger class has more members, if one of them is not in the smaller. -/
theorem countP_lt {α : Type} {xs : List α} {p q : α → Bool} {a : α}
    (h : ∀ x ∈ xs, p x = true → q x = true) (ha : a ∈ xs) (hp : p a = false) (hq : q a = true) :
    xs.countP p < xs.countP q := by
  obtain ⟨front, back, rfl⟩ := List.append_of_mem ha
  have hfront := List.countP_mono_left (p := p) (q := q) fun x hx => h x (List.mem_append_left _ hx)
  have hback := List.countP_mono_left (p := p) (q := q) fun x hx =>
    h x (List.mem_append_right _ (List.mem_cons_of_mem _ hx))
  rw [List.countP_append, List.countP_append, List.countP_cons_of_neg (by simp [hp]),
    List.countP_cons_of_pos hq]
  omega

/-! ## Without rounding -/

/-- Where only the keyword score weighs, a fusion without rounding keeps the order of the keyword
scores. -/
def KeepsKeywordOrder (fusion : Fusion) : Prop :=
  ∀ (keyword : List (Bytes × Rat)) (lookup : Bytes → Option (Rat × Rat)) (weight : Rat),
    (keyword.map Prod.fst).Nodup → 0 < weight →
    (Numbers.exact.fuse keyword [] lookup ⟨weight, 0, 0, 0⟩ fusion).Pairwise fun a b =>
      b.keyword < a.keyword ∨ a.keyword = b.keyword ∧ cmpBytes a.id b.id = .lt

section exact

variable {values : List Rat} {v v' : Rat}

theorem ordered_exact (values : List Rat) : Numbers.exact.Ordered (fun x : Rat => x) values where
  cmp _ _ _ _ := rfl
  same _ _ _ _ := rfl

theorem foldl_min_le : ∀ (values : List Rat) (start : Rat), values.foldl min start ≤ start ∧
    ∀ v ∈ values, values.foldl min start ≤ v
  | [], start => ⟨le_rfl, fun _ h => (by cases h)⟩
  | x :: values, start => by
    obtain ⟨hstart, hall⟩ := foldl_min_le values (min start x)
    rw [List.foldl_cons]
    refine ⟨hstart.trans (min_le_left _ _), fun v hv => ?_⟩
    rcases List.mem_cons.mp hv with rfl | hv
    · exact hstart.trans (min_le_right _ _)
    · exact hall v hv

theorem le_foldl_max : ∀ (values : List Rat) (start : Rat), start ≤ values.foldl max start ∧
    ∀ v ∈ values, v ≤ values.foldl max start
  | [], start => ⟨le_rfl, fun _ h => (by cases h)⟩
  | x :: values, start => by
    obtain ⟨hstart, hall⟩ := le_foldl_max values (max start x)
    rw [List.foldl_cons]
    refine ⟨(le_max_left _ _).trans hstart, fun v hv => ?_⟩
    rcases List.mem_cons.mp hv with rfl | hv
    · exact (le_max_right _ _).trans hstart
    · exact hall v hv

/-- Scaling keeps the order of the scores. -/
theorem scale_exact_lt (hv : v ∈ values) (hv' : v' ∈ values) (h : v < v') (fusion : Fusion) :
    Numbers.exact.scale values fusion v < Numbers.exact.scale values fusion v' := by
  cases fusion with
  | linear =>
    have hlow : Numbers.exact.lowest values ≤ v := (foldl_min_le values _).2 v hv
    have hhigh : v' ≤ Numbers.exact.highest values := (le_foldl_max values _).2 v' hv'
    have hspread : 0 < Numbers.exact.highest values - Numbers.exact.lowest values := by linarith
    have hscale : ∀ x, Numbers.exact.scale values .linear x = (x - Numbers.exact.lowest values) /
        (Numbers.exact.highest values - Numbers.exact.lowest values) := fun x =>
      if_pos (decide_eq_true hspread)
    rw [hscale, hscale]
    exact div_lt_div_of_pos_right (sub_lt_sub_right h _) hspread
  | rrf =>
    have hrank : ∀ {x : Rat}, x ∈ values → Numbers.exact.rank values x =
        (values.countP fun y => decide (x < y) : Rat) + 1 := fun hx =>
      (ordered_exact values).rank_eq hx
    have hcount : (values.countP fun y => decide (v' < y)) < values.countP fun y => decide (v < y) :=
      countP_lt (fun x _ hx => decide_eq_true (h.trans (of_decide_eq_true hx))) hv'
        (decide_eq_false (lt_irrefl v')) (decide_eq_true h)
    have hscale : ∀ x, Numbers.exact.scale values .rrf x = 1 / (60 + Numbers.exact.rank values x) :=
      fun _ => rfl
    rw [hscale, hscale, hrank hv, hrank hv']
    have hcast : ((values.countP fun y => decide (v' < y) : Nat) : Rat) <
      (values.countP fun y => decide (v < y) : Nat) := by exact_mod_cast hcount
    exact one_div_lt_one_div_of_lt (by positivity) (by linarith)

/-- **Without rounding the keyword order is kept.** -/
theorem keepsKeywordOrder (fusion : Fusion) : KeepsKeywordOrder fusion := by
  intro keyword lookup weight hk hw
  have hone : Numbers.exact.add (Numbers.exact.ofNat 0) Numbers.exact.one = Numbers.exact.one := by
    show ((0 : Nat) : Rat) + 1 = 1
    rw [Nat.cast_zero, zero_add]
  have hnil : (([] : List (Bytes × Rat)).map Prod.fst).Nodup := List.nodup_nil
  rw [Numbers.fuse_made hk hnil (fun _ => ordered_exact _) (fun _ => ordered_exact _) hone,
    List.pairwise_map]
  have hscore : ∀ id ∈ Numbers.kept keyword [] lookup, ∃ v ∈ Numbers.found keyword
      (Numbers.arrived keyword []), (Numbers.exact.made keyword [] lookup ⟨weight, 0, 0, 0⟩ fusion
        id).keyword = v ∧
      (Numbers.exact.made keyword [] lookup ⟨weight, 0, 0, 0⟩ fusion id).score = weight *
        Numbers.exact.scale (Numbers.found keyword (Numbers.arrived keyword [])) fusion v := by
    intro id hid
    have harrived := (List.mem_filter.mp hid).1
    obtain ⟨p, hp, rfl⟩ := List.mem_map.mp ((Numbers.mem_arrived.mp harrived).resolve_right (by simp))
    have hlookup := Numbers.lookup_of_mem hk hp
    refine ⟨p.2, List.mem_filterMap.mpr ⟨p.1, harrived, hlookup⟩, ?_, ?_⟩
    · unfold Numbers.made
      rw [hlookup]
      rfl
    · unfold Numbers.made Numbers.signal Numbers.weigh
      rw [hlookup]
      dsimp only [Numbers.exact, Option.map_some, Option.getD_some]
      ring
  have hmono : ∀ v ∈ Numbers.found keyword (Numbers.arrived keyword []),
      ∀ v' ∈ Numbers.found keyword (Numbers.arrived keyword []), v < v' →
      weight * Numbers.exact.scale (Numbers.found keyword (Numbers.arrived keyword [])) fusion v <
        weight * Numbers.exact.scale (Numbers.found keyword (Numbers.arrived keyword [])) fusion v' :=
    fun v hv v' hv' h => mul_lt_mul_of_pos_left (scale_exact_lt hv hv' h fusion) hw
  have hids : ((Numbers.kept keyword [] lookup).map fun id => id).Nodup := by
    rw [List.map_id']
    exact Numbers.kept_nodup hk hnil
  have hstrict := sortBy_strict
    (fun id => (Numbers.exact.made keyword [] lookup ⟨weight, 0, 0, 0⟩ fusion id).score)
    (fun id => id) hids
  refine hstrict.imp_of_mem fun {a b} ha hb hab => ?_
  obtain ⟨va, hva, hka, hsa⟩ := hscore a (mem_sortBy.mp ha)
  obtain ⟨vb, hvb, hkb, hsb⟩ := hscore b (mem_sortBy.mp hb)
  rw [hka, hkb]
  rw [hsa, hsb] at hab
  rcases lt_trichotomy vb va with hlt | heq | hgt
  · exact .inl hlt
  · refine .inr ⟨heq.symm, ?_⟩
    rw [heq] at hab
    exact (hab.resolve_left (lt_irrefl _)).2
  · have hless := hmono va hva vb hvb hgt
    rcases hab with hab | ⟨hab, -⟩
    · exact absurd (hab.trans hless) (lt_irrefl _)
    · exact absurd hab hless.ne

end exact

/-! ## Faithful fusions -/

/-- In front: a better score, or the same and a lesser id. -/
def Hit.Before (a b : Hit) : Prop :=
  b.score.lt a.score = true ∨ a.score.feq b.score = true ∧ cmpBytes a.id b.id = .lt

instance (a b : Hit) : Decidable (a.Before b) := by
  unfold Hit.Before
  infer_instance

/-- The same result, up to the sign of a zero score. -/
structure Hit.Same (a b : Hit) : Prop where
  id : a.id = b.id
  score : SoftFloat.Same a.score b.score
  keyword : a.keyword = b.keyword
  vector : a.vector = b.vector
  recency : a.recency = b.recency

section faithful

variable (powf : F64 → F64 → F64) (keyword vector : List (Bytes × F32))
  (lookup : Bytes → Option MemoryRecord) (weights : Weights) (fusion : Fusion) (halfLife : Duration)
  (now : SystemTime)

/-- Nothing is lost or invented, the ranking is sorted, and the order of arrival is ignored. -/
structure FusesFaithfully : Prop where
  once : ((fuse powf keyword vector lookup weights fusion halfLife now).map Hit.id).Nodup
  complete : ∀ id, id ∈ (fuse powf keyword vector lookup weights fusion halfLife now).map Hit.id ↔
    (id ∈ keyword.map Prod.fst ∨ id ∈ vector.map Prod.fst) ∧ (lookup id).isSome = true
  raw : ∀ h ∈ fuse powf keyword vector lookup weights fusion halfLife now,
    h.keyword = (keyword.lookup h.id).getD (SoftFloat.zero false) ∧
      h.vector = (vector.lookup h.id).getD (SoftFloat.zero false)
  sorted : (fuse powf keyword vector lookup weights fusion halfLife now).Pairwise Hit.Before
  unordered : ∀ keyword' vector', keyword.Perm keyword' → vector.Perm vector' →
    List.Forall₂ Hit.Same (fuse powf keyword vector lookup weights fusion halfLife now)
      (fuse powf keyword' vector' lookup weights fusion halfLife now)
  keywordOnly : KeepsKeywordOrder fusion

end faithful

section sorted

variable {powf : F64 → F64 → F64} {keyword vector : List (Bytes × F32)}
  {lookup : Bytes → Option MemoryRecord} {weights : Weights} {fusion : Fusion} {halfLife : Duration}
  {now : SystemTime} {a b : Hit}

theorem Hit.Before.numbers (h : a.Before b) : a.score.isNan = false ∧ b.score.isNan = false := by
  have hsome : ∀ {x y : F32} {o : Ordering}, x.partialCmp y = some o →
      x.isNan = false ∧ y.isNan = false := by
    intro x y o h
    unfold SoftFloat.partialCmp at h
    split at h
    · cases h
    · rename_i hnan
      rwa [Bool.not_eq_true, Bool.or_eq_false_iff] at hnan
  rcases h with h | ⟨h, -⟩
  · exact (hsome (beq_iff_eq.mp h)).symm
  · exact hsome (beq_iff_eq.mp h)

/-- Of two results or more that are sorted, none has a NaN for a score. -/
theorem numbers_of_sorted : ∀ {hits : List Hit}, hits.Pairwise Hit.Before →
    hits.length ≤ 1 ∨ ∀ h ∈ hits, h.score.isNan = false
  | [], _ => .inl (Nat.zero_le _)
  | [_], _ => .inl le_rfl
  | a :: b :: hits, h => by
    have hfirst := (List.pairwise_cons.mp h).1
    refine .inr fun c hc => ?_
    rcases List.mem_cons.mp hc with rfl | hc
    · exact (hfirst b List.mem_cons_self).numbers.1
    · exact (hfirst c hc).numbers.2

theorem eq_of_perm_short {α : Type} {xs ys : List α} (h : xs.length ≤ 1) (hperm : xs.Perm ys) :
    ys = xs := by
  cases xs with
  | nil => exact hperm.symm.eq_nil
  | cons a xs =>
    cases xs with
    | nil => exact List.perm_singleton.mp hperm.symm
    | cons b xs => simp at h

theorem pairwise_short {α : Type} {R : α → α → Prop} {xs : List α} (h : xs.length ≤ 1) :
    xs.Pairwise R := by
  cases xs with
  | nil => exact List.Pairwise.nil
  | cons a xs =>
    cases xs with
    | nil => exact List.pairwise_singleton R a
    | cons b xs => simp at h

theorem isSome_recordSignals (id : Bytes) :
    (recordSignals powf halfLife now lookup id).isSome = (lookup id).isSome := Option.isSome_map

end sorted

/-! ## Rankings of made hits -/

section made

variable {made made' : Bytes → Fused F32} {ids ids' : List Bytes}

theorem cmpMade_key {a b : Bytes} (ha : (made a).score.isNan = false) (hb : (made b).score.isNan = false) :
    Numbers.f32.cmpMade made a b =
      (compare (made b).score.key (made a).score.key).then (cmpBytes a b) :=
  congrArg (Ordering.then · (cmpBytes a b)) (cmpFloat_key hb ha)

/-- Scores that are numbers make a ranking. -/
theorem sorted_made (hids : ids.Nodup) (hid : ∀ id, (made id).id = id)
    (hn : ∀ id ∈ ids, (made id).score.isNan = false) :
    ((sortBy (Numbers.f32.cmpMade made) ids).map fun id => (made id).toHit).Pairwise Hit.Before := by
  rw [List.pairwise_map, sortBy_congr fun a ha b hb => cmpMade_key (hn a ha) (hn b hb)]
  have hstrict := sortBy_strict (fun id => (made id).score.key) (fun id => id)
    (by rwa [List.map_id'] : (ids.map fun id => id).Nodup)
  refine hstrict.imp_of_mem fun {a b} ha hb hab => ?_
  have hna := hn a (mem_sortBy.mp ha)
  have hnb := hn b (mem_sortBy.mp hb)
  rcases hab with hlt | ⟨heq, hless⟩
  · exact .inl ((lt_eq hnb hna).trans (decide_eq_true hlt))
  · refine .inr ⟨?_, ?_⟩
    · show ((made a).score.partialCmp (made b).score == some .eq) = true
      unfold SoftFloat.partialCmp
      rw [hna, hnb, Bool.or_self, if_neg Bool.false_ne_true, compare_eq_iff_eq.mpr heq]
      rfl
    · show cmpBytes (made a).id (made b).id = .lt
      rw [hid, hid]
      exact hless

/-- The same hits in whatever order make the same ranking, if there is one. -/
theorem same_made (hids : ids.Nodup) (hsame : ∀ id, (made id).Same (made' id)) (hperm : ids.Perm ids')
    (h : ids.length ≤ 1 ∨ ∀ id ∈ ids, (made id).score.isNan = false) :
    List.Forall₂ Hit.Same ((sortBy (Numbers.f32.cmpMade made) ids).map fun id => (made id).toHit)
      ((sortBy (Numbers.f32.cmpMade made') ids').map fun id => (made' id).toHit) := by
  have hcmp : Numbers.f32.cmpMade made' = Numbers.f32.cmpMade made := by
    funext a b
    refine congrArg (fun o : Option Ordering => (o.getD .eq).then (cmpBytes a b)) ?_
    exact ((hsame b).score.partialCmp (hsame a).score).symm
  have hsorted : sortBy (Numbers.f32.cmpMade made') ids' = sortBy (Numbers.f32.cmpMade made) ids := by
    rw [hcmp]
    rcases h with hshort | hn
    · rw [eq_of_perm_short hshort hperm]
    · have hranked : Ranked (fun id : Bytes => id) (fun id => (made id).score) ids :=
        ⟨by rwa [List.map_id'], hn⟩
      exact (hranked.sort_perm hperm).symm
  rw [hsorted, List.forall₂_map_left_iff, List.forall₂_map_right_iff]
  refine List.forall₂_same.mpr fun id _ => ?_
  exact ⟨(hsame id).id, (hsame id).score, (hsame id).keyword, (hsame id).vector, (hsame id).recency⟩

end made

/-! ## When a fusion is faithful -/

section faithful

variable {powf : F64 → F64 → F64} {keyword vector : List (Bytes × F32)}
  {lookup : Bytes → Option MemoryRecord} {weights : Weights} {fusion : Fusion} {halfLife : Duration}
  {now : SystemTime}

/-- **When a fusion is faithful**: there is at most one result, or no result has a score that
normalization makes a NaN of, nor an importance that is one. -/
theorem fusesFaithfully_iff (hk : (keyword.map Prod.fst).Nodup) (hv : (vector.map Prod.fst).Nodup)
    (hkn : ∀ p ∈ keyword, p.2.isNan = false) (hvn : ∀ p ∈ vector, p.2.isNan = false)
    (hw : weights.isValid = true) (hpowf : Halves powf) (hd : InSeconds halfLife) :
    FusesFaithfully powf keyword vector lookup weights fusion halfLife now ↔
      ((Numbers.arrived keyword vector).filter fun id => (lookup id).isSome).length ≤ 1 ∨
        ∀ id ∈ Numbers.arrived keyword vector, (lookup id).isSome = true →
          ¬ Poisoned keyword vector lookup fusion id := by
  have hkept : Numbers.kept keyword vector (recordSignals powf halfLife now lookup) =
      (Numbers.arrived keyword vector).filter fun id => (lookup id).isSome := by
    refine List.filter_congr fun id _ => ?_
    rw [isSome_recordSignals]
  have hnodup : (Numbers.kept keyword vector (recordSignals powf halfLife now lookup)).Nodup :=
    Numbers.kept_nodup hk hv
  have hfuse := fuse_f32 powf hk hv (fun _ : fusion = .rrf => hkn) (fun _ => hvn) lookup weights
    halfLife now
  have hnan : (∀ id ∈ Numbers.arrived keyword vector, (lookup id).isSome = true →
      ¬ Poisoned keyword vector lookup fusion id) ↔
      ∀ id ∈ Numbers.kept keyword vector (recordSignals powf halfLife now lookup),
        (Numbers.f32.made keyword vector (recordSignals powf halfLife now lookup) weights.signals
          fusion id).score.isNan = false := by
    rw [hkept]
    refine ⟨fun h id hid => ?_, fun h id hid hrecord hpoisoned => ?_⟩
    · obtain ⟨hid, hrecord⟩ := List.mem_filter.mp hid
      rw [← Bool.not_eq_true, isNan_made hk hv hw hpowf hd now hid hrecord]
      exact h id hid hrecord
    · have hnumber := h id (List.mem_filter.mpr ⟨hid, hrecord⟩)
      rw [← Bool.not_eq_true, isNan_made hk hv hw hpowf hd now hid hrecord] at hnumber
      exact hnumber hpoisoned
  rw [hnan, ← hkept]
  constructor
  · intro h
    have hsorted := h.sorted
    rw [hfuse] at hsorted
    rcases numbers_of_sorted hsorted with hshort | hnumbers
    · rw [List.length_map, (sortBy_perm _ _).length_eq] at hshort
      exact .inl hshort
    · exact .inr fun id hid => hnumbers _ (List.mem_map_of_mem (mem_sortBy.mpr hid))
  · intro h
    have hids : (fuse powf keyword vector lookup weights fusion halfLife now).map Hit.id =
        sortBy (Numbers.f32.cmpMade (Numbers.f32.made keyword vector
            (recordSignals powf halfLife now lookup) weights.signals fusion))
          (Numbers.kept keyword vector (recordSignals powf halfLife now lookup)) := by
      rw [hfuse, List.map_map]
      exact List.map_id _
    refine ⟨?_, fun id => ?_, fun hit hmem => ?_, ?_, fun keyword' vector' hkp hvp => ?_,
      keepsKeywordOrder fusion⟩
    · rw [hids]
      exact (sortBy_perm _ _).nodup_iff.mpr hnodup
    · rw [hids, mem_sortBy, Numbers.mem_kept, isSome_recordSignals]
    · rw [hfuse] at hmem
      obtain ⟨id, -, rfl⟩ := List.mem_map.mp hmem
      exact ⟨rfl, rfl⟩
    · rcases h with hshort | hn
      · refine pairwise_short ?_
        rw [hfuse, List.length_map, (sortBy_perm _ _).length_eq]
        exact hshort
      · rw [hfuse]
        exact sorted_made hnodup (fun _ => rfl) hn
    · have hk' : (keyword'.map Prod.fst).Nodup := (hkp.map _).nodup_iff.mp hk
      have hv' : (vector'.map Prod.fst).Nodup := (hvp.map _).nodup_iff.mp hv
      rw [hfuse, fuse_f32 powf hk' hv' (fun _ p hp => hkn p (hkp.mem_iff.mpr hp))
        fun _ p hp => hvn p (hvp.mem_iff.mpr hp)]
      exact same_made hnodup (made_same hk hv hkp hvp _ _ _)
        ((Numbers.arrived_perm hk hv hkp hvp).filter _) h

end faithful

/-- Two memories with a record each. -/
def twoRecords (id : Bytes) : Option MemoryRecord :=
  if id = [97] ∨ id = [98] then some (.new id [] 0) else none

theorem halves_one : Halves fun _ _ => lit "1" := by
  have hone : (lit "1" : F64).isNan = false ∧ (lit "1" : F64).neg = false := by decide +kernel
  intro _ _
  refine ⟨⟨hone.1, fun h => ?_⟩, le_rfl⟩
  rw [hone.2] at h
  cases h

theorem fusesFaithfully_two : FusesFaithfully (fun _ _ => lit "1") [([97], lit "2")]
    [([98], lit "3"), ([97], lit "1")] twoRecords .default .linear 604800000000000 0 :=
  (fusesFaithfully_iff (by decide) (by decide) (by decide +kernel) (by decide +kernel)
    (by decide +kernel) halves_one (by decide)).mpr (.inr (by decide +kernel))

/-- Two scores further apart than the largest `f32` have no spread to normalize by. -/
theorem not_fusesFaithfully : ¬ ∀ (powf : F64 → F64 → F64) (keyword vector : List (Bytes × F32))
    (lookup : Bytes → Option MemoryRecord) (weights : Weights) (fusion : Fusion) (halfLife : Duration)
    (now : SystemTime), (keyword.map Prod.fst).Nodup → (vector.map Prod.fst).Nodup →
    (∀ p ∈ keyword, p.2.isNan = false) → (∀ p ∈ vector, p.2.isNan = false) →
    weights.isValid = true → Halves powf → InSeconds halfLife →
    FusesFaithfully powf keyword vector lookup weights fusion halfLife now := by
  intro h
  have hsorted := (h (fun _ _ => lit "1") [] [([97], lit "3e38"), ([98], lit "-3e38")] twoRecords
    .default .linear 604800000000000 0 (by decide) (by decide) (by decide +kernel) (by decide +kernel)
    (by decide +kernel) halves_one (by decide)).sorted
  revert hsorted
  decide +kernel

end Klyro
