import Klyro.Types.Memory.Faithful
import Klyro.Types.Memory.Filtered
import Klyro.Types.Memory.Slotted

/-!
# When a result set can be sorted

A NaN is a tie with every score and then decided by id, and that may run against the scores of the
others.

* `TotalOn` — a comparator that is a total order on a list; `TotalOn.sort_perm` says that the order of
  arrival does not count then.
* `totalOn_iff` — `bestFirst` is one exactly when no NaN is `Straddled` by a worse and a better score.
* `isNan_dot`, `isNan_l2Distance`, `isNan_fuseHit` — which scores are NaN.
* `resultsSortable_iff` — the result sets of both sorts.
-/

set_option autoImplicit false

namespace Klyro

open SoftFloat

/-! ## Total orders on a list -/

section total

variable {α : Type} {cmp : α → α → Ordering} {xs ys : List α}

/-- The comparator is a total order on the elements of the list. -/
structure TotalOn (cmp : α → α → Ordering) (xs : List α) : Prop where
  swap : ∀ a ∈ xs, ∀ b ∈ xs, cmp b a = (cmp a b).swap
  trans : ∀ a ∈ xs, ∀ b ∈ xs, ∀ c ∈ xs, cmp a b ≠ .gt → cmp b c ≠ .gt → cmp a c ≠ .gt
  ties : ∀ a ∈ xs, ∀ b ∈ xs, cmp a b = .eq → a = b

namespace TotalOn

/-- The number of elements before one. -/
def before (cmp : α → α → Ordering) (xs : List α) (a : α) : Nat := xs.countP fun x => cmp x a == .lt

theorem self (h : TotalOn cmp xs) {a : α} (ha : a ∈ xs) : cmp a a = .eq := by
  have hswap := h.swap a ha a ha
  cases hcmp : cmp a a with
  | lt => rw [hcmp] at hswap; cases hswap
  | eq => rfl
  | gt => rw [hcmp] at hswap; cases hswap

theorem lt_trans (h : TotalOn cmp xs) {a b c : α} (ha : a ∈ xs) (hb : b ∈ xs) (hc : c ∈ xs)
    (hab : cmp a b = .lt) (hbc : cmp b c = .lt) : cmp a c = .lt := by
  have hle := h.trans a ha b hb c hc (by rw [hab]; decide) (by rw [hbc]; decide)
  cases hac : cmp a c with
  | lt => rfl
  | eq =>
    rw [h.ties a ha c hc hac, h.swap b hb c hc, hbc] at hab
    cases hab
  | gt => exact absurd hac hle

theorem before_lt (h : TotalOn cmp xs) {a b : α} (ha : a ∈ xs) (hb : b ∈ xs) (hab : cmp a b = .lt) :
    before cmp xs a < before cmp xs b := by
  have hself := h.self ha
  have hmono : ∀ x ∈ xs, (cmp x a == .lt) = true → (cmp x b == .lt) = true := by
    intro x hx hxa
    exact beq_iff_eq.mpr (h.lt_trans hx ha hb (beq_iff_eq.mp hxa) hab)
  exact countP_lt hmono ha (by rw [hself]; rfl) (by rw [hab]; rfl)

/-- On the list it compares the numbers of elements before. -/
theorem cmp_eq (h : TotalOn cmp xs) : ∀ a ∈ xs, ∀ b ∈ xs,
    cmp a b = compare (before cmp xs a) (before cmp xs b) := by
  intro a ha b hb
  cases hab : cmp a b with
  | lt => exact (compare_lt_iff_lt.mpr (h.before_lt ha hb hab)).symm
  | eq =>
    rw [h.ties a ha b hb hab]
    exact (compare_eq_iff_eq.mpr rfl).symm
  | gt =>
    have hba : cmp b a = .lt := by rw [h.swap a ha b hb, hab]; rfl
    exact (compare_gt_iff_gt.mpr (h.before_lt hb ha hba)).symm

/-- **The order of arrival does not count.** -/
theorem sort_perm (h : TotalOn cmp xs) (hperm : xs.Perm ys) : sortBy cmp xs = sortBy cmp ys := by
  have htrans : Std.TransCmp fun a b => compare (before cmp xs a) (before cmp xs b) :=
    { eq_swap := Std.OrientedCmp.eq_swap
      isLE_trans := Std.TransCmp.isLE_trans }
  have hys : ∀ a ∈ ys, ∀ b ∈ ys, cmp a b = compare (before cmp xs a) (before cmp xs b) :=
    fun a ha b hb => h.cmp_eq a (hperm.mem_iff.mpr ha) b (hperm.mem_iff.mpr hb)
  rw [sortBy_congr h.cmp_eq, sortBy_congr hys]
  refine sortBy_eq_of_perm hperm fun a ha b hb hab => h.ties a ha b hb ?_
  rw [h.cmp_eq a ha b hb]
  exact hab

end TotalOn

end total

/-! ## Best first -/

section bestFirst

variable {α : Type} {id : α → Bytes} {score : α → F32} {xs : List α} {a b : α}

/-- A NaN whose id stands between those of a worse score and a better one. -/
def Straddled (id : α → Bytes) (score : α → F32) (xs : List α) : Prop :=
  ∃ a ∈ xs, ∃ b ∈ xs, ∃ n ∈ xs, (score n).isNan = true ∧ (score b).lt (score a) = true ∧
    cmpBytes (id b) (id n) = .lt ∧ cmpBytes (id n) (id a) = .lt

/-- Next to a NaN the ids decide. -/
theorem bestFirst_nan (h : (score a).isNan = true ∨ (score b).isNan = true) :
    bestFirst id score a b = cmpBytes (id a) (id b) := by
  have hnan : ((score b).isNan || (score a).isNan) = true := by
    rw [Bool.or_eq_true]
    exact h.symm
  unfold bestFirst cmpFloat partialCmp
  rw [if_pos hnan]
  rfl

theorem bestFirst_swap (a b : α) : bestFirst id score b a = (bestFirst id score a b).swap := by
  by_cases ha : (score a).isNan = true
  · rw [bestFirst_nan (.inr ha), bestFirst_nan (.inl ha)]
    exact Std.OrientedCmp.eq_swap
  · by_cases hb : (score b).isNan = true
    · rw [bestFirst_nan (.inl hb), bestFirst_nan (.inr hb)]
      exact Std.OrientedCmp.eq_swap
    · rw [bestFirst_rankOf (Bool.eq_false_iff.mpr ha) (Bool.eq_false_iff.mpr hb),
        bestFirst_rankOf (Bool.eq_false_iff.mpr hb) (Bool.eq_false_iff.mpr ha)]
      exact Std.OrientedCmp.eq_swap

theorem bestFirst_id (h : bestFirst id score a b = .eq) : id a = id b := by
  unfold bestFirst at h
  rw [Ordering.then_eq_eq] at h
  exact cmpBytes_eq _ _ h.2

theorem not_nan_of_lt {x y : F32} (h : x.lt y = true) : x.isNan = false ∧ y.isNan = false := by
  have hnone : (x.isNan || y.isNan) = false := by
    by_contra hnan
    rw [lt_nan (Bool.eq_true_of_not_eq_false hnan)] at h
    cases h
  exact Bool.or_eq_false_iff.mp hnone

/-- A better score comes first. -/
theorem bestFirst_lt (h : (score b).lt (score a) = true) : bestFirst id score a b = .lt := by
  obtain ⟨hb, ha⟩ := not_nan_of_lt h
  rw [lt_eq hb ha] at h
  unfold bestFirst
  rw [cmpFloat_key hb ha, compare_lt_iff_lt.mpr (of_decide_eq_true h)]
  rfl

/-- Of two numbers the one in front is better, or the ids decide. -/
theorem bestFirst_numbers (ha : (score a).isNan = false) (hb : (score b).isNan = false)
    (h : bestFirst id score a b ≠ .gt) :
    (score b).lt (score a) = true ∨ cmpBytes (id a) (id b) ≠ .gt := by
  rw [lt_eq hb ha]
  unfold bestFirst at h
  rw [cmpFloat_key hb ha] at h
  rcases lt_trichotomy (score b).key (score a).key with hlt | heq | hgt
  · exact .inl (decide_eq_true hlt)
  · rw [compare_eq_iff_eq.mpr heq] at h
    exact .inr h
  · rw [compare_gt_iff_gt.mpr hgt] at h
    exact absurd rfl h

theorem cmpBytes_le_trans {x y z : Bytes} (hxy : cmpBytes x y ≠ .gt) (hyz : cmpBytes y z ≠ .gt) :
    cmpBytes x z ≠ .gt :=
  Ordering.isLE_iff_ne_gt.mp (Std.TransCmp.isLE_trans (Ordering.isLE_iff_ne_gt.mpr hxy)
    (Ordering.isLE_iff_ne_gt.mpr hyz))

/-- Where no id occurs twice an id that is not behind another is in front of it. -/
theorem ids_lt (hids : (xs.map id).Nodup) (ha : a ∈ xs) (hb : b ∈ xs) (hne : a ≠ b)
    (h : cmpBytes (id a) (id b) ≠ .gt) : cmpBytes (id a) (id b) = .lt := by
  cases hcmp : cmpBytes (id a) (id b) with
  | lt => rfl
  | eq => exact absurd (List.inj_on_of_nodup_map hids ha hb (cmpBytes_eq _ _ hcmp)) hne
  | gt => exact absurd hcmp h

theorem ne_of_nan (ha : (score a).isNan = true) (hb : (score b).isNan = false) : a ≠ b := by
  rintro rfl
  rw [ha] at hb
  cases hb

/-- Straddling is the only way in which the ids of NaNs run against the scores. -/
theorem bestFirst_trans (hids : (xs.map id).Nodup) (h : ¬ Straddled id score xs) {c : α} (ha : a ∈ xs)
    (hb : b ∈ xs) (hc : c ∈ xs) (hab : bestFirst id score a b ≠ .gt)
    (hbc : bestFirst id score b c ≠ .gt) : bestFirst id score a c ≠ .gt := by
  intro hac
  by_cases hna : (score a).isNan = true
  · rw [bestFirst_nan (.inl hna)] at hab hac
    by_cases hnbc : (score b).isNan = true ∨ (score c).isNan = true
    · rw [bestFirst_nan hnbc] at hbc
      exact cmpBytes_le_trans hab hbc hac
    · obtain ⟨hnb, hnc⟩ := not_or.mp hnbc
      rw [Bool.not_eq_true] at hnb hnc
      rcases bestFirst_numbers hnb hnc hbc with hlt | hle
      · exact h ⟨b, hb, c, hc, a, ha, hna, hlt, Std.OrientedCmp.lt_of_gt hac,
          ids_lt hids ha hb (ne_of_nan hna hnb) hab⟩
      · exact cmpBytes_le_trans hab hle hac
  · rw [Bool.not_eq_true] at hna
    by_cases hnb : (score b).isNan = true
    · rw [bestFirst_nan (.inr hnb)] at hab
      rw [bestFirst_nan (.inl hnb)] at hbc
      by_cases hnc : (score c).isNan = true
      · rw [bestFirst_nan (.inr hnc)] at hac
        exact cmpBytes_le_trans hab hbc hac
      · rw [Bool.not_eq_true] at hnc
        have hca : bestFirst id score c a ≠ .gt := by
          rw [bestFirst_swap a c, hac]
          decide
        rcases bestFirst_numbers hnc hna hca with hlt | hle
        · exact h ⟨c, hc, a, ha, b, hb, hnb, hlt,
            ids_lt hids ha hb (ne_of_nan hnb hna).symm hab, ids_lt hids hb hc (ne_of_nan hnb hnc) hbc⟩
        · have hids_eq : id a = id c :=
            cmpBytes_eq _ _ (eq_of_ne_gt (cmpBytes_le_trans hab hbc) hle)
          have hsame : a = c := List.inj_on_of_nodup_map hids ha hc hids_eq
          have hself : cmpRanked (rankOf id score c) (rankOf id score c) = .eq :=
            Std.ReflCmp.compare_self
          rw [hsame, bestFirst_rankOf hnc hnc, hself] at hac
          cases hac
    · rw [Bool.not_eq_true] at hnb
      by_cases hnc : (score c).isNan = true
      · rw [bestFirst_nan (.inr hnc)] at hbc hac
        rcases bestFirst_numbers hna hnb hab with hlt | hle
        · exact h ⟨a, ha, b, hb, c, hc, hnc, hlt, ids_lt hids hb hc (ne_of_nan hnc hnb).symm hbc,
            Std.OrientedCmp.lt_of_gt hac⟩
        · exact cmpBytes_le_trans hle hbc hac
      · rw [Bool.not_eq_true] at hnc
        rw [bestFirst_rankOf hna hnb] at hab
        rw [bestFirst_rankOf hnb hnc] at hbc
        rw [bestFirst_rankOf hna hnc] at hac
        exact Ordering.isLE_iff_ne_gt.mp (Std.TransCmp.isLE_trans (Ordering.isLE_iff_ne_gt.mpr hab)
          (Ordering.isLE_iff_ne_gt.mpr hbc)) hac

/-- **Best first is a total order exactly when no NaN is straddled.** -/
theorem totalOn_iff (hids : (xs.map id).Nodup) :
    TotalOn (bestFirst id score) xs ↔ ¬ Straddled id score xs := by
  constructor
  · rintro h ⟨a, ha, b, hb, n, hn, hnan, hlt, hbn, hna⟩
    have hfirst : bestFirst id score b n ≠ .gt := by
      rw [bestFirst_nan (.inr hnan), hbn]
      decide
    have hsecond : bestFirst id score n a ≠ .gt := by
      rw [bestFirst_nan (.inl hnan), hna]
      decide
    refine h.trans b hb n hn a ha hfirst hsecond ?_
    rw [bestFirst_swap a b, bestFirst_lt hlt]
    rfl
  · intro h
    refine ⟨fun a _ b _ => bestFirst_swap a b, fun a ha b hb c hc => bestFirst_trans hids h ha hb hc, ?_⟩
    intro a ha b hb hab
    exact List.inj_on_of_nodup_map hids ha hb (bestFirst_id hab)

end bestFirst

/-! ## Similarities that are no numbers -/

section similarities

variable {xs a b : List F32}

/-- On the way through a sum an infinity meets the opposite one. -/
def MeetsOpposite (xs : List F32) : Prop :=
  ∃ (front : List F32) (x : F32) (back : List F32), xs = front ++ x :: back ∧
    (sumF32 front).isInfinite = true ∧ x.isInfinite = true ∧ (sumF32 front).neg ≠ x.neg

/-- The products of two vectors overflow one way and then the other. -/
def OverflowsBothWays (a b : List F32) : Prop := MeetsOpposite (List.zipWith SoftFloat.mul a b)

theorem sumF32_concat (xs : List F32) (x : F32) : sumF32 (xs ++ [x]) = (sumF32 xs).add x := by
  unfold sumF32
  rw [List.foldl_append]
  rfl

theorem meetsOpposite_concat {x : F32} : MeetsOpposite (xs ++ [x]) ↔ MeetsOpposite xs ∨
    (sumF32 xs).isInfinite = true ∧ x.isInfinite = true ∧ (sumF32 xs).neg ≠ x.neg := by
  constructor
  · rintro ⟨front, y, back, heq, hmeets⟩
    rcases List.eq_nil_or_concat back with rfl | ⟨back', z, rfl⟩
    · obtain ⟨rfl, hlast⟩ := List.append_inj' heq rfl
      cases hlast
      exact .inr hmeets
    · rw [List.concat_eq_append, ← List.cons_append, ← List.append_assoc] at heq
      obtain ⟨rfl, -⟩ := List.append_inj' heq rfl
      exact .inl ⟨front, y, back', rfl, hmeets⟩
  · rintro (⟨front, y, back, rfl, hmeets⟩ | hmeets)
    · exact ⟨front, y, back ++ [x], by rw [List.append_assoc, List.cons_append], hmeets⟩
    · exact ⟨xs, x, [], rfl, hmeets⟩

/-- **A sum of numbers is a NaN exactly when opposite infinities meet.** -/
theorem isNan_sum (h : ∀ x ∈ xs, x.isNan = false) :
    (sumF32 xs).isNan = true ↔ MeetsOpposite xs := by
  induction xs using List.reverseRecOn with
  | nil =>
    refine ⟨fun hnan => ?_, ?_⟩
    · rw [show (sumF32 []).isNan = false from isNan_zero true] at hnan
      cases hnan
    · rintro ⟨front, x, back, heq, -⟩
      exact absurd heq (by simp)
  | append_singleton xs x ih =>
    have hx := h x (by simp)
    have ih := ih fun y hy => h y (List.mem_append_left _ hy)
    rw [meetsOpposite_concat, sumF32_concat, isNan_add (by decide), hx, Bool.or_false,
      Bool.or_eq_true, ih, Bool.and_eq_true, Bool.and_eq_true, bne_iff_ne, and_assoc]

theorem isNan_mul_finite {x y : F32} (hx : x.isFinite = true) (hy : y.isFinite = true) :
    (x.mul y).isNan = false := by
  obtain ⟨hxn, hxi⟩ := isFinite_iff.mp hx
  obtain ⟨hyn, hyi⟩ := isFinite_iff.mp hy
  rw [isNan_mul (by decide), hxn, hyn, hxi, hyi]
  rfl

/-- **Which dot products are NaN.** -/
theorem isNan_dot (ha : AllFinite a) (hb : AllFinite b) :
    (dot a b).isNan = true ↔ OverflowsBothWays a b := by
  refine isNan_sum fun x hx => ?_
  obtain ⟨i, hi, rfl⟩ := List.mem_iff_getElem.mp hx
  rw [List.getElem_zipWith]
  exact isNan_mul_finite (ha _ (List.getElem_mem _)) (hb _ (List.getElem_mem _))

/-- The square of a distance, which may be infinite. -/
theorem nonneg_square {x : F32} (h : x.isNan = false) : Nonneg (x.mul x) := by
  by_cases hinf : x.isInfinite = true
  · have hzero : x.isZero = false := isZero_of_isInfinite (by decide) hinf
    unfold mul
    rw [h, hinf, hzero, bne_self_eq_false]
    exact nonneg_ofMag _
  · exact nonneg_mul_self (isFinite_iff.mpr ⟨h, Bool.eq_false_iff.mpr hinf⟩)

/-- **No distance is a NaN.** -/
theorem isNan_l2Distance (ha : AllFinite a) (hb : AllFinite b) : (l2Distance a b).isNan = false := by
  unfold l2Distance sumF32
  refine (nonneg_sqrt (nonneg_sum (by decide) (nonneg_zero true) fun x hx => ?_).1).number
  obtain ⟨i, hi, rfl⟩ := List.mem_iff_getElem.mp hx
  rw [List.getElem_zipWith]
  refine nonneg_square ?_
  obtain ⟨hxn, hxi⟩ := isFinite_iff.mp (ha _ (List.getElem_mem _))
  obtain ⟨hyn, -⟩ := isFinite_iff.mp (hb _ (List.getElem_mem _))
  rw [isNan_sub (by decide), hxn, hyn, hxi]
  rfl

end similarities

/-! ## Fused scores that are no numbers -/

section fused

variable {powf : F64 → F64 → F64} {keyword vector : List (Bytes × F32)}
  {lookup : Bytes → Option MemoryRecord} {weights : Weights} {fusion : Fusion} {halfLife : Duration}
  {now : SystemTime}

/-- `fuse`, up to the sort. -/
def fuseHits (powf : F64 → F64 → F64) (keyword vector : List (Bytes × F32))
    (lookup : Bytes → Option MemoryRecord) (weights : Weights) (fusion : Fusion)
    (halfLife : Duration) (now : SystemTime) : List Hit :=
  let rows := fuseRows keyword vector
  let keywordComponent := component (rows.map Row.rawKeyword) (rows.map Row.hadKeyword) fusion
  let vectorComponent := component (rows.map Row.rawVector) (rows.map Row.hadVector) fusion
  (rows.zip (keywordComponent.zip vectorComponent)).filterMap fun p =>
    (lookup p.1.id).map fun record =>
      let recency := recencyScore powf record.updatedAt now halfLife
      let importance := clampUnit record.importance
      { id := p.1.id
        score := ((((weights.keyword.mul p.2.1).add (weights.vector.mul p.2.2)).add
          (weights.recency.mul recency)).add (weights.importance.mul importance))
        keyword := p.1.rawKeyword
        vector := p.1.rawVector
        recency := recency : Hit }

theorem fuse_sorts (powf : F64 → F64 → F64) (keyword vector : List (Bytes × F32))
    (lookup : Bytes → Option MemoryRecord) (weights : Weights) (fusion : Fusion)
    (halfLife : Duration) (now : SystemTime) :
    fuse powf keyword vector lookup weights fusion halfLife now =
      sortBy (bestFirst Hit.id Hit.score)
        (fuseHits powf keyword vector lookup weights fusion halfLife now) := rfl

theorem zip_fst_sublist {α β : Type} : ∀ (as : List α) (bs : List β),
    ((as.zip bs).map Prod.fst).Sublist as
  | [], _ => List.Sublist.refl _
  | _ :: _, [] => List.nil_sublist _
  | a :: as, _ :: bs => (zip_fst_sublist as bs).cons_cons a

/-- No two hits have the same id. -/
theorem fuseHits_ids :
    ((fuseHits powf keyword vector lookup weights fusion halfLife now).map Hit.id).Nodup := by
  unfold fuseHits
  dsimp only
  refine (fuseRows_ids keyword vector).1.sublist ?_
  refine (Memory.map_filterMap_sublist (g := fun p => p.1.id) (fun p hit hhit => ?_) _).trans ?_
  · obtain ⟨record, -, rfl⟩ := Option.map_eq_some_iff.mp hhit
    rfl
  · have hfst := (zip_fst_sublist (fuseRows keyword vector)
      ((component ((fuseRows keyword vector).map Row.rawKeyword)
        ((fuseRows keyword vector).map Row.hadKeyword) fusion).zip
      (component ((fuseRows keyword vector).map Row.rawVector)
        ((fuseRows keyword vector).map Row.hadVector) fusion))).map Row.id
    rw [List.map_map] at hfst
    exact hfst

theorem nextRank_nonneg (scores : List F32) {rank : F32} (hrank : Nonneg rank) (i position : Nat) :
    ∀ previous : Option Nat, Nonneg (Numbers.f32.nextRank scores i position previous rank)
  | none => signal_one.nonneg
  | some j => by
    unfold Numbers.nextRank
    dsimp only
    split
    · exact nonneg_rank position
    · exact hrank

theorem ranksWalk_nonneg {scores : List F32} : ∀ (order : List Nat) (position : Nat)
    (previous : Option Nat) {rank : F32} {out : List F32}, Nonneg rank → (∀ x ∈ out, Nonneg x) →
    ∀ x ∈ Numbers.f32.ranksWalk scores order position previous rank out, Nonneg x
  | [], _, _, _, _, _, hout => hout
  | i :: order, position, previous, _, _, hrank, hout => by
    have hnext := nextRank_nonneg scores hrank i position previous
    rw [Numbers.ranksWalk_cons]
    refine ranksWalk_nonneg order _ _ hnext fun x hx => ?_
    rcases List.mem_or_eq_of_mem_set hx with hx | rfl
    · exact hout x hx
    · exact hnext

theorem ranks_nonneg (scores : List F32) : ∀ x ∈ ranks scores, Nonneg x := by
  unfold ranks
  rw [ranksWalk_f32]
  refine ranksWalk_nonneg _ _ _ (nonneg_zero false) fun x hx => ?_
  rw [(List.mem_replicate.mp hx).2]
  exact nonneg_zero false

theorem mem_distribute {x : F32} : ∀ {present : List Bool} {scaled : List F32},
    x ∈ distribute present scaled → x = SoftFloat.zero false ∨ x ∈ scaled
  | [], _, h => by cases h
  | true :: present, s :: scaled, h => by
    rcases List.mem_cons.mp h with rfl | h
    · exact .inr List.mem_cons_self
    · exact (mem_distribute h).imp_right (List.mem_cons_of_mem _)
  | true :: present, [], h => by
    rcases List.mem_cons.mp h with rfl | h
    · exact .inl rfl
    · exact mem_distribute h
  | false :: present, scaled, h => by
    rcases List.mem_cons.mp h with rfl | h
    · exact .inl rfl
    · exact mem_distribute h

/-- Reciprocal ranks are numbers, whatever was scored. -/
theorem component_rrf {raw : List F32} {present : List Bool} : ∀ x ∈ component raw present .rrf,
    IsSignal x := by
  intro x hx
  unfold component at hx
  dsimp only at hx
  split at hx
  · rw [(List.mem_replicate.mp hx).2]
    exact signal_zero
  · rcases mem_distribute hx with rfl | hx
    · exact signal_zero
    · obtain ⟨r, hr, rfl⟩ := List.mem_map.mp hx
      exact signal_share (ranks_nonneg _ r hr)

/-- **Which fused scores are NaN.** -/
theorem isNan_fuseHit (hk : (keyword.map Prod.fst).Nodup) (hv : (vector.map Prod.fst).Nodup)
    (hw : weights.isValid = true) (hpowf : Halves powf) (hd : InSeconds halfLife) {hit : Hit}
    (h : hit ∈ fuseHits powf keyword vector lookup weights fusion halfLife now) :
    hit.score.isNan = true ↔ Poisoned keyword vector lookup fusion hit.id := by
  cases fusion with
  | linear =>
    have hmem : hit ∈ fuse powf keyword vector lookup weights .linear halfLife now := by
      rw [fuse_sorts]
      exact mem_sortBy.mpr h
    rw [fuse_f32 powf hk hv (fun h => by cases h) (fun h => by cases h)] at hmem
    obtain ⟨id, hid, rfl⟩ := List.mem_map.mp hmem
    obtain ⟨harrived, hrecord⟩ := Numbers.mem_kept.mp (mem_sortBy.mp hid)
    rw [isSome_recordSignals] at hrecord
    exact isNan_made hk hv hw hpowf hd now (Numbers.mem_arrived.mpr harrived) hrecord
  | rrf =>
    obtain ⟨⟨row, k, v⟩, hmem, hhit⟩ := List.mem_filterMap.mp h
    obtain ⟨record, hrecord, rfl⟩ := Option.map_eq_some_iff.mp hhit
    obtain ⟨hkmem, hvmem⟩ := List.of_mem_zip (List.of_mem_zip hmem).2
    have hks := component_rrf k hkmem
    have hvs := component_rrf v hvmem
    have hr := signal_recency hpowf hd record.updatedAt now
    have hnan := isNan_weigh hw (fun _ => hks) (fun _ => hvs) (fun _ => hr) fun hi =>
      signal_clampUnit ((isNan_clampUnit record.importance).symm.trans hi)
    rw [hks.isNan, hvs.isNan, hr.isNan, isNan_clampUnit, Bool.or_false, Bool.or_false,
      Bool.false_or] at hnan
    refine (iff_of_eq (congrArg (· = true) hnan)).trans ?_
    unfold Poisoned
    dsimp only at hrecord ⊢
    rw [hrecord]
    refine ⟨fun hi => .inl ⟨record, rfl, hi⟩, ?_⟩
    rintro (⟨_, hsame, hi⟩ | ⟨hlinear, -⟩)
    · cases hsame
      exact hi
    · cases hlinear

end fused

/-! ## The two sorts -/

/-- The comparator is a total order on what is sorted, so that the order of arrival does not count. -/
def Sortable {α : Type} (cmp : α → α → Ordering) (xs : List α) : Prop :=
  TotalOn cmp xs ∧ ∀ ys, xs.Perm ys → sortBy cmp xs = sortBy cmp ys

theorem sortable_iff {α : Type} {cmp : α → α → Ordering} {xs : List α} :
    Sortable cmp xs ↔ TotalOn cmp xs :=
  ⟨And.left, fun h => ⟨h, fun _ hperm => h.sort_perm hperm⟩⟩

/-- What `similarity` makes of a stored vector. -/
def compared (metric : Metric) (stored query : List F32) : F32 :=
  match metric with
  | .cosine | .innerProduct => dot stored query
  | .l2 => (l2Distance stored query).negate

theorem isNan_compared {metric : Metric} {stored query : List F32} (hs : AllFinite stored)
    (hq : AllFinite query) : (compared metric stored query).isNan = true ↔
      metric ≠ .l2 ∧ OverflowsBothWays stored query := by
  unfold compared
  cases metric with
  | cosine => exact (isNan_dot hs hq).trans ⟨fun h => ⟨nofun, h⟩, And.right⟩
  | innerProduct => exact (isNan_dot hs hq).trans ⟨fun h => ⟨nofun, h⟩, And.right⟩
  | l2 =>
    refine ⟨fun h => ?_, fun h => absurd rfl h.1⟩
    dsimp only at h
    rw [isNan_negate, isNan_l2Distance hs hq] at h
    cases h

namespace Memory

variable {m : Memory} {query : List F32} {filter : Filter} {t : SystemTime}

/-- A record the filter accepts and the vector stored for it. -/
structure Candidate (m : Memory) (filter : Filter) (t : SystemTime) (r : MemoryRecord)
    (stored : List F32) : Prop where
  filed : m.records.lookup r.id = some r
  accepted : filter.accepts r t = true
  vector : m.vectorOf r = some stored

/-- A search scores the candidates. -/
theorem mem_scored_iff (hm : m.Keyed) {p : Bytes × F32} : p ∈ m.scored query filter t ↔
    ∃ r stored, m.Candidate filter t r stored ∧ p = (r.id, compared m.vectors.metric stored query) := by
  have hsimilarity : ∀ r : MemoryRecord, (r.slot.bind fun slot => m.vectors.similarity slot query) =
      (m.vectorOf r).map fun stored => compared m.vectors.metric stored query := by
    intro r
    unfold vectorOf
    cases r.slot <;> rfl
  unfold scored
  rw [List.mem_filterMap]
  constructor
  · rintro ⟨⟨id, r⟩, hmem, hp⟩
    obtain ⟨hpair, haccepts⟩ := List.mem_filter.mp hmem
    have hlookup := Assoc.mem_pairs.mp hpair
    rw [hsimilarity, Option.map_map] at hp
    obtain ⟨stored, hstored, rfl⟩ := Option.map_eq_some_iff.mp hp
    have hid := hm id r hlookup
    exact ⟨r, stored, ⟨by rw [hid]; exact hlookup, haccepts, hstored⟩, rfl⟩
  · rintro ⟨r, stored, hcandidate, rfl⟩
    refine ⟨(r.id, r), List.mem_filter.mpr ⟨Assoc.mem_pairs.mpr hcandidate.filed,
      hcandidate.accepted⟩, ?_⟩
    dsimp only
    rw [hsimilarity, hcandidate.vector]
    rfl

/-- A candidate whose dot product overflows both ways stands, by its id, between a worse candidate and
a better one. -/
def VectorStraddled (m : Memory) (query : List F32) (filter : Filter) (t : SystemTime) : Prop :=
  m.vectors.metric ≠ .l2 ∧ ∃ better worse between better' worse' between',
    m.Candidate filter t better better' ∧ m.Candidate filter t worse worse' ∧
    m.Candidate filter t between between' ∧ OverflowsBothWays between' query ∧
    (dot worse' query).lt (dot better' query) = true ∧ cmpBytes worse.id between.id = .lt ∧
    cmpBytes between.id better.id = .lt

theorem compared_dot {metric : Metric} (h : metric ≠ .l2) (stored query : List F32) :
    compared metric stored query = dot stored query := by
  cases metric with
  | cosine => rfl
  | innerProduct => rfl
  | l2 => exact absurd rfl h

theorem straddled_scored (hm : m.Keyed)
    (hfinite : ∀ id r, m.records.lookup id = some r → ∀ values, m.vectorOf r = some values →
      AllFinite values) (hq : AllFinite query) :
    Straddled Prod.fst Prod.snd (m.scored query filter t) ↔ m.VectorStraddled query filter t := by
  have hstored : ∀ {r stored}, m.Candidate filter t r stored → AllFinite stored :=
    fun h => hfinite _ _ h.filed _ h.vector
  constructor
  · rintro ⟨a, ha, b, hb, n, hn, hnan, hlt, hbn, hna⟩
    obtain ⟨ra, sa, hca, rfl⟩ := (mem_scored_iff hm).mp ha
    obtain ⟨rb, sb, hcb, rfl⟩ := (mem_scored_iff hm).mp hb
    obtain ⟨rn, sn, hcn, rfl⟩ := (mem_scored_iff hm).mp hn
    obtain ⟨hmetric, hboth⟩ := (isNan_compared (hstored hcn) hq).mp hnan
    dsimp only at hlt
    rw [compared_dot hmetric, compared_dot hmetric] at hlt
    exact ⟨hmetric, ra, rb, rn, sa, sb, sn, hca, hcb, hcn, hboth, hlt, hbn, hna⟩
  · rintro ⟨hmetric, ra, rb, rn, sa, sb, sn, hca, hcb, hcn, hboth, hlt, hbn, hna⟩
    refine ⟨_, (mem_scored_iff hm).mpr ⟨ra, sa, hca, rfl⟩, _, (mem_scored_iff hm).mpr ⟨rb, sb, hcb, rfl⟩,
      _, (mem_scored_iff hm).mpr ⟨rn, sn, hcn, rfl⟩,
      (isNan_compared (hstored hcn) hq).mpr ⟨hmetric, hboth⟩, ?_, hbn, hna⟩
    rw [compared_dot hmetric, compared_dot hmetric]
    exact hlt

end Memory

/-- A poisoned candidate stands, by its id, between a hit with a worse score and one with a better. -/
def HitsStraddled (keyword vector : List (Bytes × F32)) (lookup : Bytes → Option MemoryRecord)
    (fusion : Fusion) (hits : List Hit) : Prop :=
  ∃ better ∈ hits, ∃ worse ∈ hits, ∃ between ∈ hits, Poisoned keyword vector lookup fusion between.id ∧
    worse.score.lt better.score = true ∧ cmpBytes worse.id between.id = .lt ∧
    cmpBytes between.id better.id = .lt

/-- **Which result sets can be sorted.**  The order of a vector search is a total order exactly when no
dot product that overflows both ways stands, by its id, between a worse and a better one; the order of
a fusion exactly when no poisoned hit does. -/
theorem resultsSortable_iff (m : Memory) (hm : m.Keyed)
    (hfinite : ∀ id r, m.records.lookup id = some r → ∀ values, m.vectorOf r = some values →
      AllFinite values) :
    (∀ (vector : List F32) (filter : Filter) (t : SystemTime), AllFinite vector →
      (Sortable TextIndex.cmpHits (m.scored (m.vectors.prepare vector) filter t) ↔
        ¬ m.VectorStraddled (m.vectors.prepare vector) filter t)) ∧
    ∀ (powf : F64 → F64 → F64) (keyword vector : List (Bytes × F32))
      (lookup : Bytes → Option MemoryRecord) (weights : Weights) (fusion : Fusion)
      (halfLife : Duration) (now : SystemTime), (keyword.map Prod.fst).Nodup →
      (vector.map Prod.fst).Nodup → weights.isValid = true → Halves powf → InSeconds halfLife →
      (Sortable (bestFirst Hit.id Hit.score)
          (fuseHits powf keyword vector lookup weights fusion halfLife now) ↔
        ¬ HitsStraddled keyword vector lookup fusion
          (fuseHits powf keyword vector lookup weights fusion halfLife now)) := by
  refine ⟨fun vector filter t hvector => ?_, ?_⟩
  · have hids := Memory.scored_ids hm (m.vectors.prepare vector) filter t
    have hstraddled : Straddled Prod.fst Prod.snd
          (m.scored (m.vectors.prepare vector) filter t) ↔
        m.VectorStraddled (m.vectors.prepare vector) filter t :=
      Memory.straddled_scored hm hfinite (Memory.prepare_finite m.vectors hvector)
    exact sortable_iff.trans ((totalOn_iff hids).trans (not_congr hstraddled))
  · intro powf keyword vector lookup weights fusion halfLife now hk hv hw hpowf hd
    refine sortable_iff.trans ((totalOn_iff fuseHits_ids).trans (not_congr ?_))
    refine exists_congr fun a => and_congr_right fun _ => exists_congr fun b => and_congr_right fun _ =>
      exists_congr fun n => and_congr_right fun hn => and_congr_left fun _ => ?_
    exact isNan_fuseHit hk hv hw hpowf hd hn

/-! ## Infinity minus infinity -/

/-- Three records under an inner product: the dot product of the second can overflow both ways. -/
def clash : Memory where
  config := MemoryConfig.new .vector 2 .innerProduct
  records := (((∅ : Assoc Bytes MemoryRecord).insert [97]
      { MemoryRecord.new [97] [] 0 with slot := some 0 }).insert [98]
      { MemoryRecord.new [98] [] 0 with slot := some 1 }).insert [99]
      { MemoryRecord.new [99] [] 0 with slot := some 2 }
  vectors :=
    { dim := 2, metric := .innerProduct, live := 3
      data := [lit "0", lit "0", lit "3e38", lit "3e38", lit "1", lit "0"] }

/-- A query that is finite. -/
def clashQuery : List F32 := [lit "3e38", lit "-3e38"]

theorem clash_keyed : clash.Keyed := by
  intro id r hr
  simp only [clash, Assoc.lookup_insert_eq] at hr
  split at hr
  · cases hr
    exact ‹id = [99]›.symm
  · split at hr
    · cases hr
      exact ‹id = [98]›.symm
    · split at hr
      · cases hr
        exact ‹id = [97]›.symm
      · cases hr

theorem clash_finite : ∀ id r, clash.records.lookup id = some r → ∀ values,
    clash.vectorOf r = some values → AllFinite values := by
  have hdata : AllFinite clash.vectors.data := by
    unfold AllFinite
    decide +kernel
  intro id r _ values hvalues x hx
  obtain ⟨slot, -, hget⟩ := Option.bind_eq_some_iff.mp hvalues
  unfold VectorIndex.get at hget
  dsimp only at hget
  split at hget
  · cases hget
    exact hdata x (List.mem_of_mem_drop (List.mem_of_mem_take hx))
  · cases hget

theorem resultsSortable_iff_clash :
    (∀ (vector : List F32) (filter : Filter) (t : SystemTime), AllFinite vector →
      (Sortable TextIndex.cmpHits (clash.scored (clash.vectors.prepare vector) filter t) ↔
        ¬ clash.VectorStraddled (clash.vectors.prepare vector) filter t)) ∧
    ∀ (powf : F64 → F64 → F64) (keyword vector : List (Bytes × F32))
      (lookup : Bytes → Option MemoryRecord) (weights : Weights) (fusion : Fusion)
      (halfLife : Duration) (now : SystemTime), (keyword.map Prod.fst).Nodup →
      (vector.map Prod.fst).Nodup → weights.isValid = true → Halves powf → InSeconds halfLife →
      (Sortable (bestFirst Hit.id Hit.score)
          (fuseHits powf keyword vector lookup weights fusion halfLife now) ↔
        ¬ HitsStraddled keyword vector lookup fusion
          (fuseHits powf keyword vector lookup weights fusion halfLife now)) :=
  resultsSortable_iff clash clash_keyed clash_finite

/-- A vector search over finite vectors need not have an order to sort by. -/
theorem not_resultsSortable : ¬ ∀ m : Memory, m.Keyed →
    (∀ id r, m.records.lookup id = some r → ∀ values, m.vectorOf r = some values →
      AllFinite values) →
    ∀ (vector : List F32) (filter : Filter) (t : SystemTime), AllFinite vector →
      vector.length = m.config.dim →
      Sortable TextIndex.cmpHits (m.scored (m.vectors.prepare vector) filter t) := by
  intro h
  have hquery : AllFinite clashQuery := by
    unfold AllFinite
    decide +kernel
  have hsortable := h clash clash_keyed clash_finite clashQuery [] 5 hquery rfl
  refine (totalOn_iff (Memory.scored_ids clash_keyed _ _ _)).mp hsortable.1 ?_
  refine (Memory.straddled_scored clash_keyed clash_finite
    (Memory.prepare_finite clash.vectors hquery)).mpr ⟨by decide, ?_⟩
  refine ⟨{ MemoryRecord.new [99] [] 0 with slot := some 2 },
    { MemoryRecord.new [97] [] 0 with slot := some 0 },
    { MemoryRecord.new [98] [] 0 with slot := some 1 }, [lit "1", lit "0"], [lit "0", lit "0"],
    [lit "3e38", lit "3e38"], ⟨?_, ?_, ?_⟩, ⟨?_, ?_, ?_⟩, ⟨?_, ?_, ?_⟩, ?_, ?_, ?_, ?_⟩
  · decide +kernel
  · decide +kernel
  · decide +kernel
  · decide +kernel
  · decide +kernel
  · decide +kernel
  · decide +kernel
  · decide +kernel
  · decide +kernel
  · exact ⟨[lit "3e38" |>.mul (lit "3e38")], (lit "3e38").mul (lit "-3e38"), [], rfl, by decide +kernel,
      by decide +kernel, by decide +kernel⟩
  · decide +kernel
  · decide
  · decide

end Klyro
