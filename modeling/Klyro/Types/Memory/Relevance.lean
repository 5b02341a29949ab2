import Klyro.Types.Memory.Rebuilt
import Klyro.Types.Memory.Scaling

/-!
# BM25 gives numbers

* `Grows` — what is relied on of `ln`.
* `Below` — numbers between zero and a power of two; sums, differences, products and quotients of them.
* `one_le_odds` — the logarithm is taken of a number of at least one.
* `TextIndex.nonneg_scores` — no score is a NaN, and none is negative.
-/

set_option autoImplicit false

namespace Klyro

open SoftFloat

/-- What is relied on of `ln`: the logarithm of a finite number of at least one is finite and at least
zero. -/
def Grows (ln : F32 → F32) : Prop :=
  ∀ x : F32, x.isFinite = true → (lit "1" : F32).key ≤ x.key → IsSignal (ln x)

/-- A function that leaves its argument as it is has that property too. -/
theorem grows_id : Grows id := fun x hfin hone => by
  have hkey : 0 ≤ (lit "1" : F32).key := by decide +kernel
  exact ⟨nonneg_of_key (isFinite_iff.mp hfin).1 (hkey.trans hone), hfin⟩

/-! ## Bounded numbers -/

/-- A number between zero and `2 ^ e`. -/
structure Below (e : Nat) (x : F32) : Prop where
  nonneg : Nonneg x
  le : x.mag.val ≤ powMag ⟨24, 8⟩ (e + Format.unitExp ⟨24, 8⟩)

section below

variable {a e e' k : Nat} {x y : F32}

theorem powMag_f32 (e : Nat) : powMag ⟨24, 8⟩ (e + Format.unitExp ⟨24, 8⟩) = (e + 127) * 2 ^ 23 := by
  unfold powMag
  rw [show Format.unitExp ⟨24, 8⟩ = 149 by decide, show Format.hidden ⟨24, 8⟩ = 2 ^ 23 by decide]
  congr 1

namespace Below

theorem finite (h : Below e x) (he : e ≤ 127) : x.isFinite = true := by
  refine isFinite_of_mag h.le ?_
  rw [powMag_f32, show Format.infMag ⟨24, 8⟩ = 255 * 2 ^ 23 by decide]
  exact Nat.mul_lt_mul_of_pos_right (by omega) (by decide)

theorem signal (h : Below e x) (he : e ≤ 127) : IsSignal x := ⟨h.nonneg, h.finite he⟩

theorem mono (h : Below e x) (he : e ≤ e') : Below e' x := by
  refine ⟨h.nonneg, h.le.trans ?_⟩
  rw [powMag_f32, powMag_f32]
  exact Nat.mul_le_mul_right _ (by omega)

theorem units (h : Below e x) : x.units ≤ 2 ^ (e + Format.unitExp ⟨24, 8⟩) := by
  refine units_le_of_mag ?_ h.le
  rw [show Format.unitExp ⟨24, 8⟩ = 149 by decide]
  show 23 ≤ e + 149
  omega

theorem add (hx : Below e x) (hy : Below e y) (he : e ≤ 127) : Below (e + 1) (x.add y) := by
  refine ⟨(nonneg_add (by decide) hx.nonneg hy.nonneg).1, ?_⟩
  rw [Nat.add_right_comm]
  refine mag_add_le (hx.finite he) (hy.finite he) hx.units hy.units ?_
  rw [show Format.unitExp ⟨24, 8⟩ = 149 by decide]
  show 23 ≤ e + 149 + 1
  omega

/-- A difference, where it is not negative. -/
theorem sub (hx : Below e x) (hy : Below e y) (he : e ≤ 127) (hle : y.mag.val ≤ x.mag.val) :
    Below (e + 1) (x.sub y) := by
  have hnan : (x.sub y).isNan = false := by
    rw [isNan_sub (by decide), hx.nonneg.number, hy.nonneg.number, (isFinite_iff.mp (hx.finite he)).2]
    rfl
  refine ⟨nonneg_sub (by decide) (by decide) ?_ hnan, ?_⟩
  · rw [hx.nonneg.key, hy.nonneg.key]
    exact_mod_cast hle
  · rw [Nat.add_right_comm]
    refine mag_add_le (y := y.negate) (hx.finite he) (hy.finite he) hx.units hy.units ?_
    rw [show Format.unitExp ⟨24, 8⟩ = 149 by decide]
    show 23 ≤ e + 149 + 1
    omega

theorem mul (hx : Below a x) (hy : Below e y) (ha : a ≤ 127) (he : e ≤ 127) :
    Below (a + e) (x.mul y) := by
  refine ⟨nonneg_mul hx.nonneg hy.nonneg (hx.finite ha) (hy.finite he), ?_⟩
  refine mag_mul_le (hx.finite ha) (hy.finite he) hx.units hy.units ?_ (by omega)
  rw [show Format.unitExp ⟨24, 8⟩ = 149 by decide]
  show 23 ≤ a + e + 149
  omega

/-- A quotient by a number of at least `2 ^ -k`. -/
theorem div (hx : Below e x) (hy : Nonneg y) (he : e ≤ 127)
    (hlow : 2 ^ (Format.unitExp ⟨24, 8⟩ - k) ≤ y.units) (hk : k ≤ Format.unitExp ⟨24, 8⟩) :
    Below (e + k) (x.div y) := by
  have hpos : 0 < y.units := (Nat.two_pow_pos _).trans_le hlow
  have hne : y.mag.val ≠ 0 := by
    intro hzero
    rw [units_of_zero hzero] at hpos
    exact absurd hpos (Nat.lt_irrefl 0)
  refine ⟨nonneg_div (by decide) (by decide) hx.nonneg hy ?_ (beq_eq_false_iff_ne.mpr hne), ?_⟩
  · rw [(isFinite_iff.mp (hx.finite he)).2, Bool.false_and]
  · refine mag_div_le (hx.finite he) hy hne ?_ ?_
    · rw [show Format.unitExp ⟨24, 8⟩ = 149 by decide]
      show 23 ≤ e + k + 149
      omega
    · calc x.units ≤ 2 ^ (e + Format.unitExp ⟨24, 8⟩) := hx.units
        _ = 2 ^ (e + k) * 2 ^ (Format.unitExp ⟨24, 8⟩ - k) := by
          rw [← pow_add]
          congr 1
          omega
        _ ≤ 2 ^ (e + k) * y.units := Nat.mul_le_mul_left _ hlow

end Below

theorem below_ofInt {n : Nat} (h : n ≤ u64Max) : Below 64 (SoftFloat.ofInt n) :=
  ⟨nonneg_ofInt n, mag_ofInt_le (h.trans (by decide)) (by decide)⟩

theorem below_one : Below 0 (lit "1") := ⟨signal_one.nonneg, by decide +kernel⟩

theorem below_half : Below 0 (lit "0.5") :=
  ⟨⟨by decide +kernel, fun h => absurd h (by decide +kernel)⟩, by decide +kernel⟩

end below

/-! ## The logarithm's argument -/

/-- What the logarithm is taken of is at least one. -/
theorem one_le_odds {n df : Nat} (hle : df ≤ n) (hn : n ≤ u64Max) {odds : F32}
    (hodds : odds = SoftFloat.add (lit "1") (SoftFloat.div
      (SoftFloat.add (SoftFloat.sub (SoftFloat.ofInt n) (SoftFloat.ofInt df)) (lit "0.5"))
      (SoftFloat.add (SoftFloat.ofInt df) (lit "0.5")))) :
    odds.isFinite = true ∧ (lit "1" : F32).key ≤ odds.key := by
  have htop : Below 66
      (SoftFloat.add (SoftFloat.sub (SoftFloat.ofInt n) (SoftFloat.ofInt df)) (lit "0.5")) :=
    ((below_ofInt hn).sub (below_ofInt (hle.trans hn)) (by decide) (mag_ofInt_mono hle)).add
      (below_half.mono (by decide)) (by decide)
  obtain ⟨hbottom, -, hlow⟩ := nonneg_add (by decide) (nonneg_ofInt (f := ⟨24, 8⟩) df) below_half.nonneg
  have hunits : 2 ^ (Format.unitExp ⟨24, 8⟩ - 1) ≤
      (SoftFloat.add (SoftFloat.ofInt df) (lit "0.5") : F32).units :=
    le_trans (by decide +kernel) (unitsOf_mono (f := ⟨24, 8⟩) hlow)
  have hquotient := htop.div hbottom (by decide) hunits (by decide)
  obtain ⟨hsum, hone, -⟩ := nonneg_add (by decide) below_one.nonneg hquotient.nonneg
  rw [hodds]
  refine ⟨((below_one.mono (by decide)).add hquotient (by decide)).finite (by decide), ?_⟩
  rw [below_one.nonneg.key, hsum.key]
  exact_mod_cast hone

/-! ## Scores -/

namespace TextIndex

/-- The counters of an index hold what their types can, and no term is in more documents than there
are. -/
structure Bounded (t : TextIndex) : Prop where
  documents : t.docCount ≤ u64Max
  listed : ∀ term, (entries t.postings term).length ≤ t.docCount
  counts : ∀ term, ∀ p ∈ entries t.postings term, p.2 ≤ u32Max
  lengths : ∀ id length, t.docLen.lookup id = some length → length ≤ u32Max
  total : t.totalLen ≤ u64Max

variable {ln : F32 → F32} {t : TextIndex}

theorem listedCount (term : Bytes) : ((t.postings.lookup term).map List.length).getD 0 =
    (entries t.postings term).length := by
  unfold entries
  cases t.postings.lookup term <;> rfl

theorem entries_of_lookup {term : Bytes} {list : List (Bytes × Nat)}
    (h : t.postings.lookup term = some list) : entries t.postings term = list := by
  unfold entries
  rw [h]
  rfl

/-- The weight of a term is a finite number. -/
theorem signal_idf (hln : Grows ln) (h : t.Bounded) (term : Bytes) : IsSignal (idf ln t term) := by
  obtain ⟨hfin, hone⟩ := one_le_odds (h.listed term) h.documents rfl
  unfold idf
  rw [listedCount]
  exact hln _ hfin hone

theorem nonneg_avgDocLen (h : t.Bounded) : Nonneg t.avgDocLen := by
  unfold avgDocLen
  split
  · exact nonneg_zero false
  · rename_i hempty
    have hpos : 1 ≤ t.docLen.size := by
      unfold Assoc.isEmpty at hempty
      rw [List.isEmpty_iff] at hempty
      exact List.length_pos_iff.mpr hempty
    have hmag : 0 < (SoftFloat.ofInt (1 : Nat) : F32).mag.val := by decide +kernel
    have hle := mag_ofInt_mono (f := ⟨24, 8⟩) hpos
    refine nonneg_div (by decide) (by decide) (nonneg_ofInt _) (nonneg_ofInt _) ?_
      (beq_eq_false_iff_ne.mpr (by omega))
    rw [(isFinite_iff.mp ((below_ofInt h.total).finite (by decide))).2, Bool.false_and]

/-- Being zero, of a number that is not negative. -/
theorem feq_zero {x : F32} (hx : Nonneg x) : x.feq (SoftFloat.zero false) = x.isZero := by
  have hkey : (SoftFloat.zero false : F32).key = 0 := by decide
  unfold feq partialCmp isZero
  rw [hx.number, isNan_zero, Bool.or_self, if_neg (by decide), hkey, hx.key]
  cases hmag : x.mag.val with
  | zero => rfl
  | succ n =>
    rw [compare_gt_iff_gt.mpr (show ((n + 1 : Nat) : Int) > 0 by omega)]
    rfl

/-- A count that is not zero is at least one unit. -/
theorem one_le_ofInt {n : Nat} (h : n ≠ 0) :
    2 ^ Format.unitExp ⟨24, 8⟩ ≤ (SoftFloat.ofInt n : F32).units := by
  have hone : (SoftFloat.ofInt (1 : Nat) : F32).mag.val = 127 * 2 ^ 23 := by decide +kernel
  have hunits : unitsOf ⟨24, 8⟩ (127 * 2 ^ 23) = 2 ^ Format.unitExp ⟨24, 8⟩ := by decide +kernel
  have hle := mag_ofInt_mono (f := ⟨24, 8⟩) (Nat.one_le_iff_ne_zero.mpr h)
  rw [hone] at hle
  unfold units
  exact hunits.ge.trans (unitsOf_mono hle)

/-- The average length is positive where there is anything to average. -/
theorem avgDocLen_pos (h : t.Bounded) (htotal : t.totalLen ≠ 0) (hdocs : t.docLen.size ≠ 0) :
    t.avgDocLen.isZero = false := by
  have hempty : t.docLen.isEmpty = false := by
    rw [Bool.eq_false_iff, ne_eq, Assoc.isEmpty_iff, ← List.length_eq_zero_iff, Assoc.length_pairs]
    exact hdocs
  have hsize : 0 < (SoftFloat.ofInt t.docLen.size : F32).units :=
    (Nat.two_pow_pos _).trans_le (one_le_ofInt hdocs)
  obtain ⟨htnan, htinf⟩ := isFinite_iff.mp ((below_ofInt h.total).finite (by decide))
  have hdocsBelow : Below 64 (SoftFloat.ofInt t.docLen.size) := below_ofInt h.documents
  obtain ⟨hdnan, hdinf⟩ := isFinite_iff.mp (hdocsBelow.finite (by decide))
  have hzero : (SoftFloat.ofInt t.docLen.size : F32).isZero = false := by
    by_contra hz
    rw [units_of_zero (beq_iff_eq.mp (Bool.eq_true_of_not_eq_false hz))] at hsize
    exact absurd hsize (Nat.lt_irrefl 0)
  have hround : 1 ≤ SoftFloat.round ⟨24, 8⟩
      ((SoftFloat.ofInt t.totalLen : F32).units * 2 ^ Format.unitExp ⟨24, 8⟩)
      (SoftFloat.ofInt t.docLen.size : F32).units := by
    refine SoftFloat.le_round hsize ?_
    calc unitsOf ⟨24, 8⟩ 1 * (SoftFloat.ofInt t.docLen.size : F32).units
        ≤ 1 * 2 ^ (64 + Format.unitExp ⟨24, 8⟩) := Nat.mul_le_mul (by decide) hdocsBelow.units
      _ ≤ 2 ^ (Format.unitExp ⟨24, 8⟩ + Format.unitExp ⟨24, 8⟩) := by
        rw [Nat.one_mul]
        exact Nat.pow_le_pow_right (by decide) (by decide)
      _ = 2 ^ Format.unitExp ⟨24, 8⟩ * 2 ^ Format.unitExp ⟨24, 8⟩ := Nat.pow_add 2 _ _
      _ ≤ _ := Nat.mul_le_mul_right _ (one_le_ofInt htotal)
  unfold avgDocLen
  rw [if_neg (by rw [hempty]; decide)]
  refine beq_eq_false_iff_ne.mpr ?_
  unfold SoftFloat.div
  simp only [htnan, hdnan, htinf, hdinf, hzero, Bool.or_self, Bool.false_eq_true, if_false, ofMag_val]
  have hmax : 1 ≤ Format.infMag ⟨24, 8⟩ := by decide
  omega

theorem below_b : Below 0 b :=
  ⟨⟨by decide +kernel, fun h => absurd h (by decide +kernel)⟩, by decide +kernel⟩

theorem below_k1 : Below 1 k1 :=
  ⟨⟨by decide +kernel, fun h => absurd h (by decide +kernel)⟩, by decide +kernel⟩

theorem below_quarter : Below 0 (SoftFloat.sub (lit "1") b) :=
  ⟨⟨by decide +kernel, fun h => absurd h (by decide +kernel)⟩, by decide +kernel⟩

/-- What a posting contributes is a number of at least zero. -/
theorem nonneg_contribution (h : t.Bounded) (havg : t.avgDocLen.feq (SoftFloat.zero false) = false)
    {idf : F32} (hidf : IsSignal idf) {p : Bytes × Nat} (hp : p.2 ≤ u32Max) :
    Nonneg (contribution t t.avgDocLen idf p) := by
  have hlength : (t.docLen.lookup p.1).getD 0 ≤ u64Max := by
    cases hl : t.docLen.lookup p.1 with
    | none => exact Nat.zero_le _
    | some length => exact (h.lengths p.1 length hl).trans (by decide)
  have htf : Below 64 (SoftFloat.ofInt p.2) := below_ofInt (hp.trans (by decide))
  have hscaled := below_b.mul (below_ofInt hlength) (by decide) (by decide)
  have hshare := nonneg_div (by decide) (by decide) hscaled.nonneg (nonneg_avgDocLen h)
    (by rw [(isFinite_iff.mp (hscaled.finite (by decide))).2, Bool.false_and])
    ((feq_zero (nonneg_avgDocLen h)).symm.trans havg)
  obtain ⟨hnorm, hquarter, -⟩ := nonneg_add (by decide) below_quarter.nonneg hshare
  -- the divisor is at least `k1 * (1 - b)`
  obtain ⟨hweighted, hlow⟩ := mul_mono (by decide) below_k1.nonneg (below_k1.finite (by decide))
    (by decide +kernel) below_quarter.nonneg hnorm hquarter
  obtain ⟨hbottom, -, hbottomle⟩ := nonneg_add (by decide) htf.nonneg hweighted
  have hunits : 2 ^ (Format.unitExp ⟨24, 8⟩ - 2) ≤ (SoftFloat.add (SoftFloat.ofInt p.2)
      (SoftFloat.mul k1 (SoftFloat.add (SoftFloat.sub (lit "1") b)
        (SoftFloat.div (SoftFloat.mul b (SoftFloat.ofInt ((t.docLen.lookup p.1).getD 0)))
          t.avgDocLen))) : F32).units :=
    le_trans (by decide +kernel) (unitsOf_mono (f := ⟨24, 8⟩) (hlow.trans hbottomle))
  have htop : Below 66 (SoftFloat.mul (SoftFloat.ofInt p.2) (SoftFloat.add k1 (lit "1"))) :=
    htf.mul (below_k1.add (below_one.mono (by decide)) (by decide)) (by decide) (by decide)
  have hsaturated := htop.div hbottom (by decide) hunits (by decide)
  exact nonneg_mul hidf.nonneg hsaturated.nonneg hidf.finite (hsaturated.finite (by decide))

/-- Every score so far is a number of at least zero. -/
def NonnegScores (scores : Assoc Bytes F32) : Prop := ∀ id x, scores.lookup id = some x → Nonneg x

theorem nonneg_scoreTerm (hln : Grows ln) (h : t.Bounded)
    (havg : t.avgDocLen.feq (SoftFloat.zero false) = false) {keep : Bytes → Bool}
    {scores : Assoc Bytes F32} (hscores : NonnegScores scores) (term : Bytes) :
    NonnegScores (scoreTerm ln t t.avgDocLen keep scores term) := by
  unfold scoreTerm
  split
  · exact hscores
  · rename_i list hlist
    have hcounts : ∀ p ∈ list, p.2 ≤ u32Max := by
      rw [← entries_of_lookup hlist]
      exact h.counts term
    clear hlist
    dsimp only
    induction list generalizing scores with
    | nil => exact hscores
    | cons p list ih =>
      rw [List.foldl_cons]
      refine ih ?_ fun q hq => hcounts q (List.mem_cons_of_mem _ hq)
      have hone := nonneg_contribution h havg (signal_idf hln h term) (hcounts p List.mem_cons_self)
      split
      · intro id x hx
        rw [Assoc.lookup_insert_eq] at hx
        split at hx
        · cases hx
          refine (nonneg_add (by decide) ?_ hone).1
          cases hl : scores.lookup p.1 with
          | none => exact nonneg_zero false
          | some y => exact hscores p.1 y hl
        · exact hscores id x hx
      · exact hscores

/-- **Every score is a number.** -/
theorem nonneg_scores (hln : Grows ln) (h : t.Bounded)
    (havg : t.avgDocLen.feq (SoftFloat.zero false) = false) (keep : Bytes → Bool) :
    ∀ (terms : List Bytes) {scores : Assoc Bytes F32}, NonnegScores scores →
      NonnegScores (terms.foldl (scoreTerm ln t t.avgDocLen keep) scores)
  | [], _, hscores => hscores
  | term :: terms, _, hscores =>
    nonneg_scores hln h havg keep terms (nonneg_scoreTerm hln h havg hscores term)

end TextIndex

end Klyro
