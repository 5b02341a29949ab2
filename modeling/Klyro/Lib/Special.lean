import Klyro.Lib.Rounding

/-!
# Special values

* `isNan_add`, `isNan_mul`, `isNan_div` — exactly when an operation gives a NaN.
* `Same` — equal up to the sign of a zero; the operations respect it.
* `nonneg_sub` — the distance to a number that is no larger, and no more than to a larger one.
* `mag_sub_mono`, `unit_div` — distances keep the order; a quotient of at most one is finite.
* `lowest_foldl`, `highest_foldl` — the least and the largest of a list, NaNs left out.
-/

set_option autoImplicit false

namespace SoftFloat

variable {f : Format}

/-! ## Which operations give a NaN -/

theorem isNan_nan (hh : 1 < f.hidden) : (nan : SoftFloat f).isNan = true := by
  unfold isNan nan Format.infMag Format.magBound
  refine decide_eq_true ?_
  have hpow : 0 < 2 ^ f.expBits := by positivity
  have hsplit : 2 ^ f.expBits * f.hidden = (2 ^ f.expBits - 1) * f.hidden + f.hidden := by
    rw [← Nat.succ_mul, Nat.succ_eq_add_one, Nat.sub_add_cancel hpow]
  simp only
  omega

theorem isNan_ofMag (neg : Bool) (m : Nat) : (ofMag neg m : SoftFloat f).isNan = false := by
  unfold isNan
  rw [ofMag_val]
  exact decide_eq_false (by omega)

theorem isNan_zero (neg : Bool) : (zero neg : SoftFloat f).isNan = false := isNan_ofMag neg 0

theorem isNan_inf (neg : Bool) : (inf neg : SoftFloat f).isNan = false := isNan_ofMag neg _

theorem isNan_negate (x : SoftFloat f) : x.negate.isNan = x.isNan := rfl

theorem isNan_add (hh : 1 < f.hidden) (x y : SoftFloat f) : (x.add y).isNan =
    (x.isNan || y.isNan || (x.isInfinite && y.isInfinite && x.neg != y.neg)) := by
  unfold add
  by_cases hnan : (x.isNan || y.isNan) = true
  · rw [if_pos hnan, isNan_nan hh, hnan, Bool.true_or]
  · rw [if_neg hnan, Bool.eq_false_iff.mpr hnan, Bool.false_or]
    obtain ⟨hx, hy⟩ := Bool.or_eq_false_iff.mp (Bool.eq_false_iff.mpr hnan)
    by_cases hxinf : x.isInfinite = true
    · rw [if_pos hxinf, hxinf, Bool.true_and]
      by_cases hopposite : (y.isInfinite && x.neg != y.neg) = true
      · rw [if_pos hopposite, isNan_nan hh, hopposite]
      · rw [if_neg hopposite, hx, Bool.eq_false_iff.mpr hopposite]
    · rw [if_neg hxinf, Bool.eq_false_iff.mpr hxinf, Bool.false_and, Bool.false_and]
      split
      · exact hy
      · dsimp only
        split
        · exact isNan_zero _
        · exact isNan_ofMag _ _

theorem isNan_sub (hh : 1 < f.hidden) (x y : SoftFloat f) : (x.sub y).isNan =
    (x.isNan || y.isNan || (x.isInfinite && y.isInfinite && x.neg == y.neg)) := by
  have hsign : (x.neg != y.negate.neg) = (x.neg == y.neg) := by
    show (x.neg != !y.neg) = _
    cases x.neg <;> cases y.neg <;> rfl
  rw [sub, isNan_add hh, hsign]
  rfl

theorem isNan_mul (hh : 1 < f.hidden) (x y : SoftFloat f) : (x.mul y).isNan =
    (x.isNan || y.isNan || ((x.isInfinite || y.isInfinite) && (x.isZero || y.isZero))) := by
  unfold mul
  dsimp only
  by_cases hnan : (x.isNan || y.isNan) = true
  · rw [if_pos hnan, isNan_nan hh, hnan, Bool.true_or]
  · rw [if_neg hnan, Bool.eq_false_iff.mpr hnan, Bool.false_or]
    by_cases hinf : (x.isInfinite || y.isInfinite) = true
    · rw [if_pos hinf, hinf, Bool.true_and]
      by_cases hzero : (x.isZero || y.isZero) = true
      · rw [if_pos hzero, isNan_nan hh, hzero]
      · rw [if_neg hzero, isNan_inf, Bool.eq_false_iff.mpr hzero]
    · rw [if_neg hinf, isNan_ofMag, Bool.eq_false_iff.mpr hinf, Bool.false_and]

/-- What is infinite is no zero. -/
theorem isZero_of_isInfinite (hf : 0 < f.infMag) {x : SoftFloat f} (h : x.isInfinite = true) :
    x.isZero = false := by
  have hval : x.mag.val = f.infMag := of_decide_eq_true h
  unfold isZero
  rw [hval]
  exact beq_eq_false_iff_ne.mpr (by omega)

theorem isNan_div (hh : 1 < f.hidden) (hf : 0 < f.infMag) (x y : SoftFloat f) : (x.div y).isNan =
    (x.isNan || y.isNan || (x.isInfinite && y.isInfinite) || (x.isZero && y.isZero)) := by
  unfold div
  dsimp only
  by_cases hnan : (x.isNan || y.isNan) = true
  · rw [if_pos hnan, isNan_nan hh, hnan, Bool.true_or, Bool.true_or]
  · rw [if_neg hnan, Bool.eq_false_iff.mpr hnan, Bool.false_or]
    by_cases hxinf : x.isInfinite = true
    · rw [if_pos hxinf, hxinf, Bool.true_and, isZero_of_isInfinite hf hxinf, Bool.false_and,
        Bool.or_false]
      split
      · rename_i hyinf
        rw [isNan_nan hh, hyinf]
      · rename_i hyinf
        rw [isNan_inf, Bool.eq_false_iff.mpr hyinf]
    · rw [if_neg hxinf, Bool.eq_false_iff.mpr hxinf, Bool.false_and, Bool.false_or]
      by_cases hyinf : y.isInfinite = true
      · rw [if_pos hyinf, isNan_zero, isZero_of_isInfinite hf hyinf, Bool.and_false]
      · rw [if_neg hyinf]
        by_cases hyzero : y.isZero = true
        · rw [if_pos hyzero, hyzero, Bool.and_true]
          split
          · rename_i hxzero
            rw [isNan_nan hh, hxzero]
          · rename_i hxzero
            rw [isNan_inf, Bool.eq_false_iff.mpr hxzero]
        · rw [if_neg hyzero, isNan_ofMag, Bool.eq_false_iff.mpr hyzero, Bool.and_false]

/-! ## Kinds of numbers -/

theorem isFinite_iff {x : SoftFloat f} :
    x.isFinite = true ↔ x.isNan = false ∧ x.isInfinite = false := by
  unfold isFinite isNan isInfinite
  rw [decide_eq_true_eq, decide_eq_false_iff_not, decide_eq_false_iff_not]
  omega

/-- A sum of two numbers that is no NaN for want of an infinity. -/
theorem isNan_add_finite (hh : 1 < f.hidden) {x y : SoftFloat f} (hx : x.isNan = false)
    (hy : y.isFinite = true) : (x.add y).isNan = false := by
  obtain ⟨hynan, hyinf⟩ := isFinite_iff.mp hy
  rw [isNan_add hh, hx, hynan, hyinf, Bool.and_false, Bool.false_and]
  rfl

theorem units_of_zero {x : SoftFloat f} (h : x.mag.val = 0) : x.units = 0 := by
  unfold units unitsOf
  rw [h]
  simp

theorem units_pos {x : SoftFloat f} (h : x.isZero = false) : 0 < x.units := by
  rcases Nat.eq_zero_or_pos x.units with h0 | hpos
  · exact absurd (beq_iff_eq.mpr (isZero_of_units h0)) (Bool.eq_false_iff.mp h)
  · exact hpos

theorem round_zero {d : Nat} (hd : 0 < d) : round f 0 d = 0 := by
  have h := round_units (f := f) 0 hd
  unfold unitsOf at h
  simpa using h

/-- Zeros of either sign have one key. -/
theorem key_eq_zero {x : SoftFloat f} : x.key = 0 ↔ x.mag.val = 0 := by
  unfold key
  split <;> omega

/-- A key gives its number back, but for the sign of a zero. -/
theorem key_inj {x y : SoftFloat f} (h : x.key = y.key) : x = y ∨ x.mag.val = 0 ∧ y.mag.val = 0 := by
  obtain ⟨xneg, xmag, hxmag⟩ := x
  obtain ⟨yneg, ymag, hymag⟩ := y
  unfold key at h
  simp only at h
  cases xneg <;> cases yneg <;> simp at h ⊢ <;> omega

theorem lt_eq {x y : SoftFloat f} (hx : x.isNan = false) (hy : y.isNan = false) :
    x.lt y = decide (x.key < y.key) := by
  unfold lt partialCmp
  rw [hx, hy]
  by_cases hlt : x.key < y.key
  · rw [decide_eq_true hlt, Bool.or_self, if_neg (by decide), compare_lt_iff_lt.mpr hlt]
    rfl
  · rw [decide_eq_false hlt, Bool.or_self, if_neg (by decide)]
    have hcmp : compare x.key y.key ≠ .lt := fun h => hlt (compare_lt_iff_lt.mp h)
    exact beq_eq_false_iff_ne.mpr fun h => hcmp (Option.some.inj h)

theorem lt_nan {x y : SoftFloat f} (h : (x.isNan || y.isNan) = true) : x.lt y = false := by
  unfold lt partialCmp
  rw [if_pos h]
  rfl

theorem nonneg_of_key {x : SoftFloat f} (hnan : x.isNan = false) (h : 0 ≤ x.key) : Nonneg x := by
  refine ⟨hnan, fun hneg => ?_⟩
  unfold key at h
  rw [hneg, if_pos rfl] at h
  omega

theorem key_of_lt {x : SoftFloat f} (h : lt (zero false) x = true) :
    x.isNan = false ∧ 0 < x.key := by
  have hnan : x.isNan = false := by
    cases hx : x.isNan with
    | false => rfl
    | true =>
      rw [lt_nan (by rw [hx, Bool.or_true])] at h
      cases h
  rw [lt_eq (isNan_zero _) hnan] at h
  have hlt : (zero false : SoftFloat f).key < x.key := of_decide_eq_true h
  rw [key_eq_zero.mpr (Nat.zero_min _)] at hlt
  exact ⟨hnan, hlt⟩

theorem isZero_of_key {x : SoftFloat f} (h : 0 < x.key) : x.isZero = false := by
  refine beq_eq_false_iff_ne.mpr fun h0 => ?_
  rw [key_eq_zero.mpr h0] at h
  exact lt_irrefl _ h

/-! ## Equal up to the sign of a zero -/

/-- The same number: equal, or zeros of whatever signs. -/
def Same (x y : SoftFloat f) : Prop := x = y ∨ x.mag.val = 0 ∧ y.mag.val = 0

namespace Same

variable {x y z x' y' : SoftFloat f}

theorem refl (x : SoftFloat f) : Same x x := .inl rfl

theorem of_key (h : x.key = y.key) : Same x y := key_inj h

theorem mag (h : Same x y) : x.mag.val = y.mag.val := by
  rcases h with rfl | ⟨hx, hy⟩
  · rfl
  · rw [hx, hy]

theorem key (h : Same x y) : x.key = y.key := by
  rcases h with rfl | ⟨hx, hy⟩
  · rfl
  · rw [key_eq_zero.mpr hx, key_eq_zero.mpr hy]

theorem isNan (h : Same x y) : x.isNan = y.isNan := by
  unfold SoftFloat.isNan
  rw [h.mag]

theorem isInfinite (h : Same x y) : x.isInfinite = y.isInfinite := by
  unfold SoftFloat.isInfinite
  rw [h.mag]

theorem isFinite (h : Same x y) : x.isFinite = y.isFinite := by
  unfold SoftFloat.isFinite
  rw [h.mag]

theorem partialCmp (hx : Same x x') (hy : Same y y') : x.partialCmp y = x'.partialCmp y' := by
  unfold SoftFloat.partialCmp
  rw [hx.isNan, hy.isNan, hx.key, hy.key]

theorem lt (hx : Same x x') (hy : Same y y') : x.lt y = x'.lt y' := by
  unfold SoftFloat.lt
  rw [hx.partialCmp hy]

theorem isZero (h : Same x y) : x.isZero = y.isZero := by
  unfold SoftFloat.isZero
  rw [h.mag]

theorem units (h : Same x y) : x.units = y.units := by
  unfold SoftFloat.units
  rw [h.mag]

theorem toUnits (h : Same x y) : x.toUnits = y.toUnits := by
  rcases h with rfl | ⟨hx, hy⟩
  · rfl
  · unfold SoftFloat.toUnits
    rw [units_of_zero hx, units_of_zero hy]
    simp

theorem eq_of_isZero (h : Same x y) (hy : y.isZero = false) : x = y := by
  rcases h with rfl | ⟨-, h0⟩
  · rfl
  · exact absurd (beq_iff_eq.mpr h0) (Bool.eq_false_iff.mp hy)

theorem eq_of_isInfinite (hf : 0 < f.infMag) (h : Same x y) (hinf : y.isInfinite = true) : x = y := by
  rcases h with rfl | ⟨-, hy⟩
  · rfl
  · have hval : y.mag.val = f.infMag := of_decide_eq_true hinf
    omega

theorem zeros (a b : Bool) : Same (zero a : SoftFloat f) (zero b) := by
  refine .inr ⟨?_, ?_⟩ <;>
  · unfold zero
    rw [ofMag_val, Nat.zero_min]

theorem ofMag_zero (a b : Bool) : Same (ofMag a 0 : SoftFloat f) (ofMag b 0) := zeros a b

theorem negate (h : Same x y) : Same x.negate y.negate := by
  rcases h with rfl | h
  · exact refl _
  · exact .inr h

theorem add (hf : 0 < f.infMag) (hx : Same x x') (hy : Same y y') : Same (x.add y) (x'.add y') := by
  unfold SoftFloat.add
  rw [hx.isNan, hy.isNan, hx.isInfinite, hy.isInfinite, hx.toUnits, hy.toUnits]
  split
  · exact refl _
  · split
    · rename_i hxinf
      rw [hx.eq_of_isInfinite hf hxinf]
      cases hyinf : y'.isInfinite with
      | false => exact refl _
      | true =>
        rw [hy.eq_of_isInfinite hf hyinf]
        exact refl _
    · split
      · rename_i hyinf
        exact .inl (hy.eq_of_isInfinite hf hyinf)
      · dsimp only
        split
        · exact zeros _ _
        · exact refl _

theorem sub (hf : 0 < f.infMag) (hx : Same x x') (hy : Same y y') : Same (x.sub y) (x'.sub y') :=
  hx.add hf hy.negate

/-- A zero in a product leaves nothing but the sign open. -/
theorem mul (hx : Same x x') (hy : Same y y') : Same (x.mul y) (x'.mul y') := by
  by_cases hzero : (x'.isZero || y'.isZero) = true
  · have hunits : x'.units * y'.units = 0 := by
      rcases (Bool.or_eq_true _ _).mp hzero with h | h
      · rw [units_of_zero (beq_iff_eq.mp h), Nat.zero_mul]
      · rw [units_of_zero (beq_iff_eq.mp h), Nat.mul_zero]
    unfold SoftFloat.mul
    dsimp only
    rw [hx.isNan, hy.isNan, hx.isInfinite, hy.isInfinite, hx.isZero, hy.isZero, hx.units, hy.units,
      hunits, round_zero (by positivity), if_pos hzero]
    split
    · exact refl _
    · split
      · exact refl _
      · exact ofMag_zero _ _
  · obtain ⟨hx', hy'⟩ := Bool.or_eq_false_iff.mp (Bool.eq_false_iff.mpr hzero)
    rw [hx.eq_of_isZero hx', hy.eq_of_isZero hy']
    exact refl _

/-- The divisor is no zero. -/
theorem div (hf : 0 < f.infMag) (hx : Same x x') (hy : y.isZero = false) :
    Same (x.div y) (x'.div y) := by
  rcases hx with rfl | ⟨h, h'⟩
  · exact refl _
  · have hsame : Same x x' := .inr ⟨h, h'⟩
    have hinf : x'.isInfinite = false := by
      cases hinf : x'.isInfinite with
      | false => rfl
      | true =>
        have hval : x'.mag.val = f.infMag := of_decide_eq_true hinf
        omega
    unfold SoftFloat.div
    dsimp only
    rw [hsame.isNan, hsame.isInfinite, hinf, hy, units_of_zero h, units_of_zero h', Nat.zero_mul,
      round_zero (units_pos hy)]
    simp only [Bool.false_eq_true, if_false]
    split
    · exact refl _
    · split
      · exact zeros _ _
      · exact ofMag_zero _ _

end Same

/-! ## Distances and quotients -/

section order

variable {x y z : SoftFloat f}

theorem toUnits_negate (x : SoftFloat f) : x.negate.toUnits = -x.toUnits := by
  show (if (!x.neg) = true then -(x.units : Int) else x.units) = -x.toUnits
  unfold toUnits
  cases x.neg <;> simp

/-- The order of the keys is that of the values. -/
theorem toUnits_mono (h : x.key ≤ y.key) : x.toUnits ≤ y.toUnits := by
  have hmono : ∀ {a b : SoftFloat f}, a.mag.val ≤ b.mag.val → (a.units : Int) ≤ b.units :=
    fun hab => Int.ofNat_le.mpr (unitsOf_mono hab)
  unfold key at h
  unfold toUnits
  cases hx : x.neg with
  | false =>
    cases hy : y.neg with
    | false =>
      rw [hx, hy] at h
      exact hmono (by simpa using h)
    | true =>
      rw [hx, hy] at h
      have hx0 : x.mag.val = 0 := by simp at h; omega
      have hy0 : y.mag.val = 0 := by simp at h; omega
      rw [units_of_zero hx0, units_of_zero hy0]
      decide
  | true =>
    cases hy : y.neg with
    | false =>
      simp only [if_true, Bool.false_eq_true, if_false]
      omega
    | true =>
      rw [hx, hy] at h
      have hle : y.mag.val ≤ x.mag.val := by simp at h; omega
      have := hmono hle
      simp only [if_true]
      omega

theorem sub_finite (hx : x.isFinite = true) (hy : y.isFinite = true) : x.sub y =
    if x.toUnits - y.toUnits = 0 then zero (x.neg && !y.neg)
    else ofMag (decide (x.toUnits - y.toUnits < 0)) (round f (x.toUnits - y.toUnits).natAbs 1) := by
  obtain ⟨hxnan, hxinf⟩ := isFinite_iff.mp hx
  obtain ⟨hynan, hyinf⟩ := isFinite_iff.mp hy
  have hnan : y.negate.isNan = false := hynan
  have hinf : y.negate.isInfinite = false := hyinf
  unfold sub add
  rw [hxnan, hxinf, hnan, hinf, toUnits_negate, ← sub_eq_add_neg]
  rfl

theorem mag_sub_finite (hx : x.isFinite = true) (hy : y.isFinite = true) :
    (x.sub y).mag.val = min (round f (x.toUnits - y.toUnits).natAbs 1) f.infMag := by
  rw [sub_finite hx hy]
  split
  · rename_i hzero
    rw [hzero]
    show _ = min (round f 0 1) f.infMag
    rw [round_zero one_pos]
    rfl
  · rfl

theorem key_le_infMag (h : x.isNan = false) : x.key ≤ f.infMag ∧ -(f.infMag : Int) ≤ x.key := by
  have hle : x.mag.val ≤ f.infMag := by
    unfold isNan at h
    simpa using h
  unfold key
  split <;> omega

theorem isFinite_iff_key : x.isFinite = true ↔ x.key < f.infMag ∧ -(f.infMag : Int) < x.key := by
  unfold isFinite key
  rw [decide_eq_true_eq]
  split <;> omega

/-- What lies between finite numbers is finite. -/
theorem isFinite_between (hy : y.isFinite = true) (hz : z.isFinite = true) (hyx : y.key ≤ x.key)
    (hxz : x.key ≤ z.key) : x.isFinite = true := by
  obtain ⟨-, hlow⟩ := isFinite_iff_key.mp hy
  obtain ⟨hhigh, -⟩ := isFinite_iff_key.mp hz
  exact isFinite_iff_key.mpr ⟨by omega, by omega⟩

/-- An infinite number is the least key or the largest. -/
theorem key_of_isInfinite (h : x.isInfinite = true) :
    x.key = if x.neg then -(f.infMag : Int) else f.infMag := by
  have hval : x.mag.val = f.infMag := of_decide_eq_true h
  unfold key
  rw [hval]

theorem number_of_sub (hh : 1 < f.hidden) (h : (x.sub y).isNan = false) :
    x.isNan = false ∧ y.isNan = false ∧
      (x.isInfinite = true → y.isInfinite = true → x.neg = !y.neg) := by
  rw [isNan_sub hh, Bool.or_eq_false_iff, Bool.or_eq_false_iff] at h
  obtain ⟨⟨hx, hy⟩, hboth⟩ := h
  refine ⟨hx, hy, fun hxinf hyinf => ?_⟩
  rw [hxinf, hyinf] at hboth
  revert hboth
  cases x.neg <;> cases y.neg <;> decide

theorem sub_left (hh : 1 < f.hidden) (hxinf : x.isInfinite = true) (h : (x.sub y).isNan = false) :
    x.sub y = x := by
  obtain ⟨hx, hy, hsigns⟩ := number_of_sub hh h
  have hopposite : (y.isInfinite && x.neg != !y.neg) = false := by
    cases hyinf : y.isInfinite with
    | false => rfl
    | true => rw [hsigns hxinf hyinf, bne_self_eq_false, Bool.and_false]
  unfold sub add
  rw [if_neg (by rw [hx, isNan_negate, hy]; decide), if_pos hxinf]
  exact if_neg (Bool.eq_false_iff.mp hopposite)

theorem sub_right (hx : x.isFinite = true) (hy : y.isNan = false) (hyinf : y.isInfinite = true) :
    x.sub y = y.negate := by
  obtain ⟨hxnan, hxinf⟩ := isFinite_iff.mp hx
  unfold sub add
  rw [if_neg (by rw [hxnan, isNan_negate, hy]; decide), if_neg (by rw [hxinf]; decide)]
  exact if_pos hyinf

/-- **The distance down to a number that is no larger.** -/
theorem nonneg_sub (hh : 1 < f.hidden) (hf : 0 < f.infMag) (hyx : y.key ≤ x.key)
    (hnan : (x.sub y).isNan = false) : Nonneg (x.sub y) := by
  obtain ⟨hx, hy, hsigns⟩ := number_of_sub hh hnan
  refine ⟨hnan, fun hneg => ?_⟩
  cases hxinf : x.isInfinite with
  | true =>
    rw [sub_left hh hxinf hnan] at hneg
    have hxkey := key_of_isInfinite hxinf
    rw [hneg, if_pos rfl] at hxkey
    -- the least number of all, and so is the other one
    cases hyinf : y.isInfinite with
    | true =>
      have hyneg : y.neg = false := by simpa [hneg] using hsigns hxinf hyinf
      have hykey := key_of_isInfinite hyinf
      rw [hyneg] at hykey
      simp at hykey
      omega
    | false =>
      have hlow := (isFinite_iff_key.mp (isFinite_iff.mpr ⟨hy, hyinf⟩)).2
      omega
  | false =>
    have hxfin : x.isFinite = true := isFinite_iff.mpr ⟨hx, hxinf⟩
    cases hyinf : y.isInfinite with
    | true =>
      rw [sub_right hxfin hy hyinf] at hneg
      have hyneg : y.neg = false := by simpa using (show (!y.neg) = true from hneg)
      have hykey := key_of_isInfinite hyinf
      rw [hyneg] at hykey
      have hhigh := (isFinite_iff_key.mp hxfin).1
      simp at hykey
      omega
    | false =>
      have hle := toUnits_mono hyx
      rw [sub_finite hxfin (isFinite_iff.mpr ⟨hy, hyinf⟩)] at hneg ⊢
      split
      · unfold zero
        rw [ofMag_val, Nat.zero_min]
      · rename_i hne
        rw [if_neg hne] at hneg
        have hlt := of_decide_eq_true (show decide (x.toUnits - y.toUnits < 0) = true from hneg)
        omega

/-- **A larger number is no closer.** -/
theorem mag_sub_mono (hh : 1 < f.hidden) (hf : 0 < f.infMag) (hyx : y.key ≤ x.key)
    (hxz : x.key ≤ z.key) (hx : (x.sub y).isNan = false) (hz : (z.sub y).isNan = false) :
    (x.sub y).mag.val ≤ (z.sub y).mag.val := by
  have hxle := (nonneg_sub hh hf hyx hx).le_infMag
  obtain ⟨hznan, hynan, -⟩ := number_of_sub hh hz
  cases hzinf : z.isInfinite with
  | true =>
    rw [sub_left hh hzinf hz]
    have hval : z.mag.val = f.infMag := of_decide_eq_true hzinf
    omega
  | false =>
    have hzfin : z.isFinite = true := isFinite_iff.mpr ⟨hznan, hzinf⟩
    cases hyinf : y.isInfinite with
    | true =>
      rw [sub_right hzfin hynan hyinf]
      have hval : y.mag.val = f.infMag := of_decide_eq_true hyinf
      exact hxle.trans_eq hval.symm
    | false =>
      have hyfin : y.isFinite = true := isFinite_iff.mpr ⟨hynan, hyinf⟩
      have hleft := toUnits_mono hyx
      have hright := toUnits_mono hxz
      rw [mag_sub_finite (isFinite_between hyfin hzfin hyx hxz) hyfin, mag_sub_finite hzfin hyfin]
      exact min_le_min_right _ (round_mono one_pos (by omega))

theorem Nonneg.key (h : Nonneg x) : x.key = x.mag.val := by
  unfold SoftFloat.key
  split
  · rename_i hneg
    rw [h.sign hneg]
    rfl
  · rfl

theorem mul_finite (hx : x.isFinite = true) (hy : y.isFinite = true) :
    x.mul y = ofMag (x.neg != y.neg) (round f (x.units * y.units) (2 ^ f.unitExp)) := by
  obtain ⟨hxnan, hxinf⟩ := isFinite_iff.mp hx
  obtain ⟨hynan, hyinf⟩ := isFinite_iff.mp hy
  unfold mul
  rw [hxnan, hynan, hxinf, hyinf]
  rfl

theorem nonneg_mul (hx : Nonneg x) (hy : Nonneg y) (hxfin : x.isFinite = true)
    (hyfin : y.isFinite = true) : Nonneg (x.mul y) := by
  rw [mul_finite hxfin hyfin]
  refine ⟨isNan_ofMag _ _, fun hneg => ?_⟩
  have hunits : x.units * y.units = 0 := by
    cases hxneg : x.neg with
    | true => rw [units_of_zero (hx.sign hxneg), Nat.zero_mul]
    | false =>
      have hyneg : y.neg = true := by
        have hneg : (x.neg != y.neg) = true := hneg
        rw [hxneg] at hneg
        simpa using hneg
      rw [units_of_zero (hy.sign hyneg), Nat.mul_zero]
  rw [hunits, round_zero (by positivity), ofMag_val, Nat.zero_min]

/-- **A product with a larger number is no smaller.** -/
theorem mul_mono (hf : 0 < f.infMag) (hz : Nonneg z) (hzfin : z.isFinite = true) (hpos : z.isZero = false)
    (hx : Nonneg x) (hy : Nonneg y) (hle : x.mag.val ≤ y.mag.val) :
    Nonneg (z.mul y) ∧ (z.mul x).mag.val ≤ (z.mul y).mag.val := by
  obtain ⟨hznan, hzinf⟩ := isFinite_iff.mp hzfin
  have hzneg : z.neg = false := by
    cases hneg : z.neg with
    | false => rfl
    | true => exact absurd (beq_iff_eq.mpr (hz.sign hneg)) (Bool.eq_false_iff.mp hpos)
  have hbig : ∀ a : SoftFloat f, Nonneg a → a.isInfinite = true → z.mul a = inf false := by
    intro a ha hinf
    unfold mul
    rw [hznan, ha.number, hzinf, hinf, hpos, isZero_of_isInfinite hf hinf, hzneg,
      ha.sign_of_infinite hf hinf]
    rfl
  have hyle := hy.le_infMag
  by_cases hyinf : y.isInfinite = true
  · rw [hbig y hy hyinf]
    refine ⟨nonneg_ofMag _, ?_⟩
    by_cases hxinf : x.isInfinite = true
    · rw [hbig x hx hxinf]
    · have hxfin := isFinite_iff.mpr ⟨hx.number, Bool.eq_false_iff.mpr hxinf⟩
      have hle' := (nonneg_mul hz hx hzfin hxfin).le_infMag
      exact hle'.trans_eq (by unfold inf; rw [ofMag_val, Nat.min_self])
  · have hyfin := isFinite_iff.mpr ⟨hy.number, Bool.eq_false_iff.mpr hyinf⟩
    have hxfin : x.isFinite = true := decide_eq_true (hle.trans_lt (of_decide_eq_true hyfin))
    refine ⟨nonneg_mul hz hy hzfin hyfin, ?_⟩
    rw [mul_finite hzfin hxfin, mul_finite hzfin hyfin, ofMag_val, ofMag_val]
    exact min_le_min_right _ (round_mono (Nat.two_pow_pos _) (Nat.mul_le_mul_left _ (unitsOf_mono hle)))

/-- A quotient by a positive number, not both infinite. -/
theorem nonneg_div (hh : 1 < f.hidden) (hf : 0 < f.infMag) (hx : Nonneg x) (hy : Nonneg y)
    (hinf : (x.isInfinite && y.isInfinite) = false) (hpos : y.isZero = false) : Nonneg (x.div y) := by
  have hyneg : y.neg = false := by
    cases hneg : y.neg with
    | false => rfl
    | true => exact absurd (beq_iff_eq.mpr (hy.sign hneg)) (Bool.eq_false_iff.mp hpos)
  refine ⟨?_, fun hneg => ?_⟩
  · rw [isNan_div hh hf, hx.number, hy.number, hinf, hpos, Bool.and_false]
    rfl
  · unfold div at hneg ⊢
    dsimp only at hneg ⊢
    rw [hx.number, hy.number, hpos, hyneg, Bool.bne_false] at hneg ⊢
    simp only [Bool.or_self, Bool.false_eq_true, if_false] at hneg ⊢
    cases hxinf : x.isInfinite with
    | true =>
      rw [hxinf, Bool.true_and] at hinf
      rw [hxinf, hinf, if_pos rfl, if_neg (by decide)] at hneg
      exact absurd hneg (by rw [show (inf x.neg : SoftFloat f).neg = x.neg from rfl,
        hx.sign_of_infinite hf hxinf]; decide)
    | false =>
      rw [hxinf] at hneg
      simp only [Bool.false_eq_true, if_false] at hneg ⊢
      have hxneg : x.neg = true := by
        split at hneg
        · exact hneg
        · exact hneg
      rw [units_of_zero (hx.sign hxneg), Nat.zero_mul, round_zero (units_pos hpos)]
      split
      · unfold zero
        rw [ofMag_val, Nat.zero_min]
      · rw [ofMag_val, Nat.zero_min]

/-- **A quotient of at most one.** -/
theorem unit_div (hh : 1 < f.hidden) (hf : 0 < f.infMag) (hx : Nonneg x) (hy : Nonneg y)
    (hxfin : x.isFinite = true) (hpos : y.isZero = false) (hle : x.mag.val ≤ y.mag.val)
    (he : f.prec - 1 ≤ f.unitExp) : Nonneg (x.div y) ∧ (x.div y).mag.val ≤ powMag f f.unitExp := by
  have hinf : (x.isInfinite && y.isInfinite) = false := by
    rw [(isFinite_iff.mp hxfin).2, Bool.false_and]
  refine ⟨nonneg_div hh hf hx hy hinf hpos, ?_⟩
  have hne : y.mag.val ≠ 0 := fun h => absurd (beq_iff_eq.mpr h) (Bool.eq_false_iff.mp hpos)
  have hbound := mag_div_le (e := 0) hxfin hy hne (by omega) (by
    rw [pow_zero, Nat.one_mul]
    exact unitsOf_mono hle)
  rwa [Nat.zero_add] at hbound

end order

/-! ## Numbers below a power of two -/

section bounds

variable {x y : SoftFloat f} {a b e k : Nat}

theorem units_le_of_mag (he : f.prec - 1 ≤ e) (h : x.mag.val ≤ powMag f e) : x.units ≤ 2 ^ e :=
  (unitsOf_mono h).trans_eq (unitsOf_powMag he)

theorem isFinite_of_mag (h : x.mag.val ≤ powMag f e) (hmax : powMag f e < f.infMag) :
    x.isFinite = true :=
  decide_eq_true (h.trans_lt hmax)

theorem nonneg_ofInt (n : Nat) : Nonneg (ofInt n : SoftFloat f) := by
  unfold ofInt
  rw [decide_eq_false (by omega)]
  exact nonneg_ofMag _

theorem mag_ofInt_le {n : Nat} (h : n ≤ 2 ^ e) (he : f.prec - 1 ≤ e + f.unitExp) :
    (ofInt n : SoftFloat f).mag.val ≤ powMag f (e + f.unitExp) := by
  unfold ofInt
  rw [ofMag_val, Int.natAbs_natCast]
  refine (Nat.min_le_left _ _).trans (round_le one_pos ?_)
  rw [unitsOf_powMag he, Nat.mul_one, pow_add]
  exact Nat.mul_le_mul_right _ h

theorem mag_ofInt_mono {a b : Nat} (h : a ≤ b) :
    (ofInt a : SoftFloat f).mag.val ≤ (ofInt b : SoftFloat f).mag.val := by
  unfold ofInt
  rw [ofMag_val, ofMag_val, Int.natAbs_natCast, Int.natAbs_natCast]
  exact min_le_min_right _ (round_mono one_pos (Nat.mul_le_mul_right _ h))

theorem mag_add_le (hx : x.isFinite = true) (hy : y.isFinite = true) (hxu : x.units ≤ 2 ^ e)
    (hyu : y.units ≤ 2 ^ e) (he : f.prec - 1 ≤ e + 1) : (x.add y).mag.val ≤ powMag f (e + 1) := by
  obtain ⟨hxnan, hxinf⟩ := isFinite_iff.mp hx
  obtain ⟨hynan, hyinf⟩ := isFinite_iff.mp hy
  have hunits : ∀ z : SoftFloat f, z.toUnits.natAbs = z.units := fun z => by
    unfold toUnits
    split
    · rw [Int.natAbs_neg, Int.natAbs_natCast]
    · exact Int.natAbs_natCast _
  have hsum : (x.toUnits + y.toUnits).natAbs ≤ 2 ^ (e + 1) :=
    calc (x.toUnits + y.toUnits).natAbs ≤ x.toUnits.natAbs + y.toUnits.natAbs := Int.natAbs_add_le _ _
      _ = x.units + y.units := by rw [hunits, hunits]
      _ ≤ 2 ^ e + 2 ^ e := Nat.add_le_add hxu hyu
      _ = 2 ^ (e + 1) := by rw [pow_succ]; omega
  unfold add
  simp only [hxnan, hynan, hxinf, hyinf, Bool.or_self, Bool.false_eq_true, if_false]
  split
  · unfold zero
    rw [ofMag_val, Nat.zero_min]
    exact Nat.zero_le _
  · rw [ofMag_val]
    refine (Nat.min_le_left _ _).trans (round_le one_pos ?_)
    rwa [unitsOf_powMag he, Nat.mul_one]

theorem mag_mul_le (hx : x.isFinite = true) (hy : y.isFinite = true) (hxu : x.units ≤ 2 ^ a)
    (hyu : y.units ≤ 2 ^ b) (hk : f.prec - 1 ≤ k) (hsum : a + b ≤ k + f.unitExp) :
    (x.mul y).mag.val ≤ powMag f k := by
  obtain ⟨hxnan, hxinf⟩ := isFinite_iff.mp hx
  obtain ⟨hynan, hyinf⟩ := isFinite_iff.mp hy
  unfold mul
  simp only [hxnan, hynan, hxinf, hyinf, Bool.or_self, Bool.false_eq_true, if_false]
  rw [ofMag_val]
  refine (Nat.min_le_left _ _).trans (round_le (by positivity) ?_)
  rw [unitsOf_powMag hk, ← pow_add]
  calc x.units * y.units ≤ 2 ^ a * 2 ^ b := Nat.mul_le_mul hxu hyu
    _ = 2 ^ (a + b) := (pow_add ..).symm
    _ ≤ 2 ^ (k + f.unitExp) := Nat.pow_le_pow_right (by decide) hsum

end bounds

/-! ## The least and the largest of a list -/

section extremes

variable {start low high low' : SoftFloat f} {xs ys : List (SoftFloat f)}

/-- The least of a number and the numbers of a list. -/
structure Lowest (start : SoftFloat f) (xs : List (SoftFloat f)) (low : SoftFloat f) : Prop where
  number : low.isNan = false
  bound : low.key ≤ start.key
  all : ∀ x ∈ xs, x.isNan = false → low.key ≤ x.key
  there : low = start ∨ low ∈ xs

/-- The largest of a number and the numbers of a list. -/
structure Highest (start : SoftFloat f) (xs : List (SoftFloat f)) (high : SoftFloat f) : Prop where
  number : high.isNan = false
  bound : start.key ≤ high.key
  all : ∀ x ∈ xs, x.isNan = false → x.key ≤ high.key
  there : high = start ∨ high ∈ xs

theorem fmin_eq {x : SoftFloat f} (hs : start.isNan = false) : start.fmin x =
    if x.isNan = false ∧ x.key < start.key then x else start := by
  unfold fmin
  rw [hs, if_neg (by decide)]
  cases hx : x.isNan with
  | true => rw [if_pos rfl, if_neg (by simp)]
  | false =>
    rw [if_neg (by decide), lt_eq hx hs]
    simp

theorem fmax_eq {x : SoftFloat f} (hs : start.isNan = false) : start.fmax x =
    if x.isNan = false ∧ start.key < x.key then x else start := by
  unfold fmax
  rw [hs, if_neg (by decide)]
  cases hx : x.isNan with
  | true => rw [if_pos rfl, if_neg (by simp)]
  | false =>
    rw [if_neg (by decide), lt_eq hs hx]
    simp

theorem lowest_foldl : ∀ (xs : List (SoftFloat f)) {start : SoftFloat f}, start.isNan = false →
    Lowest start xs (xs.foldl fmin start)
  | [], start, hs => ⟨hs, le_rfl, (fun _ hx => nomatch hx), .inl rfl⟩
  | x :: xs, start, hs => by
    have hstep : (start.fmin x).isNan = false ∧ (start.fmin x).key ≤ start.key ∧
        (x.isNan = false → (start.fmin x).key ≤ x.key) ∧
        (start.fmin x = start ∨ start.fmin x = x) := by
      rw [fmin_eq hs]
      split
      · rename_i h
        exact ⟨h.1, h.2.le, fun _ => le_rfl, .inr rfl⟩
      · rename_i h
        exact ⟨hs, le_rfl, fun hx => not_lt.mp fun hlt => h ⟨hx, hlt⟩, .inl rfl⟩
    obtain ⟨hnumber, hstart, hx, hthere⟩ := hstep
    have h := lowest_foldl xs hnumber
    refine ⟨h.number, h.bound.trans hstart, fun y hy hynan => ?_, ?_⟩
    · rcases List.mem_cons.mp hy with rfl | hy
      · exact h.bound.trans (hx hynan)
      · exact h.all y hy hynan
    · rw [List.foldl_cons, List.mem_cons]
      rcases h.there with heq | hmem
      · rw [heq]
        exact hthere.imp_right .inl
      · exact .inr (.inr hmem)

theorem highest_foldl : ∀ (xs : List (SoftFloat f)) {start : SoftFloat f}, start.isNan = false →
    Highest start xs (xs.foldl fmax start)
  | [], start, hs => ⟨hs, le_rfl, (fun _ hx => nomatch hx), .inl rfl⟩
  | x :: xs, start, hs => by
    have hstep : (start.fmax x).isNan = false ∧ start.key ≤ (start.fmax x).key ∧
        (x.isNan = false → x.key ≤ (start.fmax x).key) ∧
        (start.fmax x = start ∨ start.fmax x = x) := by
      rw [fmax_eq hs]
      split
      · rename_i h
        exact ⟨h.1, h.2.le, fun _ => le_rfl, .inr rfl⟩
      · rename_i h
        exact ⟨hs, le_rfl, fun hx => not_lt.mp fun hlt => h ⟨hx, hlt⟩, .inl rfl⟩
    obtain ⟨hnumber, hstart, hx, hthere⟩ := hstep
    have h := highest_foldl xs hnumber
    refine ⟨h.number, hstart.trans h.bound, fun y hy hynan => ?_, ?_⟩
    · rcases List.mem_cons.mp hy with rfl | hy
      · exact (hx hynan).trans h.bound
      · exact h.all y hy hynan
    · rw [List.foldl_cons, List.mem_cons]
      rcases h.there with heq | hmem
      · rw [heq]
        exact hthere.imp_right .inl
      · exact .inr (.inr hmem)

theorem Lowest.le (h : Lowest start xs low) (h' : Lowest start ys low') (hmem : ∀ x ∈ ys, x ∈ xs) :
    low.key ≤ low'.key := by
  rcases h'.there with heq | hthere
  · rw [heq]
    exact h.bound
  · exact h.all low' (hmem low' hthere) h'.number

theorem Highest.le {high' : SoftFloat f} (h : Highest start xs high) (h' : Highest start ys high')
    (hmem : ∀ x ∈ ys, x ∈ xs) : high'.key ≤ high.key := by
  rcases h'.there with heq | hthere
  · rw [heq]
    exact h.bound
  · exact h.all high' (hmem high' hthere) h'.number

/-- The order of the list can only change the sign of a zero. -/
theorem same_lowest (hs : start.isNan = false) (h : xs.Perm ys) :
    Same (xs.foldl fmin start) (ys.foldl fmin start) :=
  .of_key (le_antisymm ((lowest_foldl xs hs).le (lowest_foldl ys hs) fun _ hx => h.mem_iff.mpr hx)
    ((lowest_foldl ys hs).le (lowest_foldl xs hs) fun _ hx => h.mem_iff.mp hx))

theorem same_highest (hs : start.isNan = false) (h : xs.Perm ys) :
    Same (xs.foldl fmax start) (ys.foldl fmax start) :=
  .of_key (le_antisymm ((highest_foldl ys hs).le (highest_foldl xs hs) fun _ hx => h.mem_iff.mp hx)
    ((highest_foldl xs hs).le (highest_foldl ys hs) fun _ hx => h.mem_iff.mpr hx))

end extremes

end SoftFloat
