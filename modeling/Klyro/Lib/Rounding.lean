import Klyro.Lib.SoftFloat

/-!
# Rounding keeps the order

* `halfEven_mono`, `round_mono` — more rounds to no less; `le_round` and `round_le` compare the
  rounded value with a representable one.
* `Nonneg` — a number of at least zero, which may be infinite; sums and square roots of such numbers
  are such numbers, and a sum is no less than its terms (`le_sum`).
* `mag_powMag` — the powers of two among the magnitudes.
-/

set_option autoImplicit false

namespace SoftFloat

variable {f : Format}

/-! ## Quotients -/

theorem halfEven_mono {n n' : Nat} (h : n ≤ n') (d : Nat) : halfEven n d ≤ halfEven n' d := by
  have hdiv : n / d ≤ n' / d := Nat.div_le_div_right h
  have hlow : n' / d ≤ halfEven n' d := by
    unfold halfEven
    split <;> [skip; split <;> [skip; split]] <;> omega
  have hhigh : halfEven n d ≤ n / d + 1 := by
    unfold halfEven
    split <;> [skip; split <;> [skip; split]] <;> omega
  rcases Nat.lt_or_eq_of_le hdiv with hlt | heq
  · omega
  · -- the same whole part: the remainders decide
    have hmod : n % d ≤ n' % d := by
      have h₁ := Nat.div_add_mod n d
      have h₂ := Nat.div_add_mod n' d
      rw [heq] at h₁
      omega
    unfold halfEven
    rw [heq]
    split_ifs <;> omega

theorem halfEven_le {n d c : Nat} (hd : 0 < d) (h : n ≤ c * d) : halfEven n d ≤ c :=
  (halfEven_mono h d).trans_eq (halfEven_exact c hd)

theorem le_halfEven {n d c : Nat} (hd : 0 < d) (h : c * d ≤ n) : c ≤ halfEven n d :=
  (halfEven_exact c hd).symm.trans_le (halfEven_mono h d)

/-- **Rounding keeps the order.** -/
theorem round_mono {n n' d : Nat} (hd : 0 < d) (h : n ≤ n') : round f n d ≤ round f n' d := by
  have hdiv : n / d ≤ n' / d := Nat.div_le_div_right h
  have hlog : (n / d).log2 ≤ (n' / d).log2 := by
    rcases Nat.eq_zero_or_pos (n / d) with h0 | hpos
    · rw [h0]
      exact Nat.zero_le _
    · rw [Nat.le_log2 (by omega)]
      exact (Nat.log2_self_le (by omega)).trans hdiv
  unfold round
  generalize hk : (n / d).log2 - (f.prec - 1) = k
  generalize hk' : (n' / d).log2 - (f.prec - 1) = k'
  simp only
  rcases Nat.lt_or_eq_of_le (show k ≤ k' by omega) with hlt | rfl
  · -- a larger exponent: the significands are those of a whole binade apart
    have hupper : halfEven n (d * 2 ^ k) ≤ 2 * f.hidden := by
      refine halfEven_le (by positivity) ?_
      have hq : n / d < 2 ^ (k + (f.prec - 1) + 1) := by
        refine lt_of_lt_of_le Nat.lt_log2_self ?_
        exact Nat.pow_le_pow_right (by decide) (by omega)
      have hn : n < 2 ^ (k + (f.prec - 1) + 1) * d := (Nat.div_lt_iff_lt_mul hd).mp hq
      have hsplit : 2 ^ (k + (f.prec - 1) + 1) * d = 2 * f.hidden * (d * 2 ^ k) := by
        unfold Format.hidden
        ring
      omega
    have hlower : f.hidden ≤ halfEven n' (d * 2 ^ k') := by
      refine le_halfEven (by positivity) ?_
      have hne : n' / d ≠ 0 := by
        intro h0
        rw [h0, Nat.log2_zero] at hk'
        omega
      have hq : 2 ^ (k' + (f.prec - 1)) ≤ n' / d := by
        refine le_trans ?_ (Nat.log2_self_le hne)
        exact Nat.pow_le_pow_right (by decide) (by omega)
      have hn : 2 ^ (k' + (f.prec - 1)) * d ≤ n' := (Nat.le_div_iff_mul_le hd).mp hq
      have hsplit : 2 ^ (k' + (f.prec - 1)) * d = f.hidden * (d * 2 ^ k') := by
        unfold Format.hidden
        ring
      omega
    calc k * f.hidden + halfEven n (d * 2 ^ k) ≤ k * f.hidden + 2 * f.hidden := by omega
      _ = (k + 1) * f.hidden + f.hidden := by ring
      _ ≤ k' * f.hidden + f.hidden := Nat.add_le_add_right (Nat.mul_le_mul_right _ hlt) _
      _ ≤ k' * f.hidden + halfEven n' (d * 2 ^ k') := by omega
  · exact Nat.add_le_add_left (halfEven_mono h _) _

theorem le_round {m n d : Nat} (hd : 0 < d) (h : unitsOf f m * d ≤ n) : m ≤ round f n d :=
  (round_units m hd).symm.trans_le (round_mono hd h)

theorem round_le {m n d : Nat} (hd : 0 < d) (h : n ≤ unitsOf f m * d) : round f n d ≤ m :=
  (round_mono hd h).trans_eq (round_units m hd)

theorem unitsOf_mono {m m' : Nat} (h : m ≤ m') : unitsOf f m ≤ unitsOf f m' := by
  by_contra hlt
  have hle := round_le (f := f) (n := unitsOf f m') (m := m) one_pos (by omega)
  have hback := round_units (f := f) m' one_pos
  rw [Nat.mul_one] at hback
  rw [hback] at hle
  have heq : m = m' := Nat.le_antisymm h hle
  rw [heq] at hlt
  exact hlt le_rfl

/-! ## Powers of two -/

/-- The magnitude of `2 ^ e` units. -/
def powMag (f : Format) (e : Nat) : Nat := (e - (f.prec - 1) + 1) * f.hidden

theorem unitsOf_powMag {e : Nat} (h : f.prec - 1 ≤ e) : unitsOf f (powMag f e) = 2 ^ e := by
  have hh := f.hidden_pos
  unfold unitsOf powMag
  rw [Nat.mul_div_cancel _ hh, Nat.mul_mod_left, if_neg (by omega), Nat.add_zero, Nat.add_sub_cancel]
  unfold Format.hidden
  rw [← pow_add]
  congr 1
  omega

/-! ## Numbers that are not negative -/

/-- A number of at least zero. -/
structure Nonneg (x : SoftFloat f) : Prop where
  number : x.isNan = false
  sign : x.neg = true → x.mag.val = 0

theorem Nonneg.le_infMag {x : SoftFloat f} (h : Nonneg x) : x.mag.val ≤ f.infMag := by
  have := h.number
  unfold isNan at this
  simpa using this

theorem Nonneg.toUnits {x : SoftFloat f} (h : Nonneg x) : x.toUnits = x.units := by
  unfold SoftFloat.toUnits
  split
  · rename_i hneg
    have hunits : x.units = 0 := by
      unfold units
      rw [h.sign hneg]
      simp [unitsOf]
    rw [hunits]
    rfl
  · rfl

theorem ofMag_val (neg : Bool) (m : Nat) : (ofMag neg m : SoftFloat f).mag.val = min m f.infMag := rfl

theorem nonneg_ofMag (m : Nat) : Nonneg (ofMag false m : SoftFloat f) where
  number := by
    unfold isNan
    rw [ofMag_val]
    exact decide_eq_false (by omega)
  sign h := by cases h

theorem nonneg_zero (neg : Bool) : Nonneg (zero neg : SoftFloat f) where
  number := by
    unfold isNan zero
    rw [ofMag_val]
    exact decide_eq_false (by omega)
  sign _ := by
    unfold zero
    rw [ofMag_val, Nat.zero_min]

/-- The square of a number. -/
theorem nonneg_mul_self {x : SoftFloat f} (h : x.isFinite = true) : Nonneg (x.mul x) := by
  have hlt : x.mag.val < f.infMag := of_decide_eq_true h
  have hnan : x.isNan = false := decide_eq_false (by omega)
  have hinf : x.isInfinite = false := decide_eq_false (by omega)
  unfold mul
  simp only [hnan, hinf, bne_self_eq_false, Bool.or_self, Bool.false_eq_true, if_false]
  exact nonneg_ofMag _

theorem Nonneg.sign_of_infinite {x : SoftFloat f} (hf : 0 < f.infMag) (h : Nonneg x)
    (hinf : x.isInfinite = true) : x.neg = false := by
  have hval : x.mag.val = f.infMag := of_decide_eq_true hinf
  cases hneg : x.neg with
  | false => rfl
  | true =>
    have := h.sign hneg
    omega

theorem isZero_of_units {x : SoftFloat f} (h : x.units = 0) : x.mag.val = 0 := by
  have hback := round_units (f := f) x.mag.val one_pos
  unfold units at h
  rw [h, Nat.zero_mul] at hback
  rw [← hback]
  unfold round halfEven
  simp

/-- **A sum is no less than its terms.** -/
theorem nonneg_add (hf : 0 < f.infMag) {x y : SoftFloat f} (hx : Nonneg x) (hy : Nonneg y) :
    Nonneg (x.add y) ∧ x.mag.val ≤ (x.add y).mag.val ∧ y.mag.val ≤ (x.add y).mag.val := by
  have hxle := hx.le_infMag
  have hyle := hy.le_infMag
  unfold add
  simp only [hx.number, hy.number, Bool.or_self, Bool.false_eq_true, if_false]
  by_cases hxinf : x.isInfinite = true
  · have hval : x.mag.val = f.infMag := of_decide_eq_true hxinf
    have hsame : (y.isInfinite && x.neg != y.neg) = false := by
      rw [hx.sign_of_infinite hf hxinf]
      cases hyinf : y.isInfinite with
      | false => rfl
      | true => rw [hy.sign_of_infinite hf hyinf]; rfl
    rw [if_pos hxinf, if_neg (by rw [hsame]; decide)]
    exact ⟨hx, le_rfl, by omega⟩
  · rw [if_neg hxinf]
    by_cases hyinf : y.isInfinite = true
    · have hval : y.mag.val = f.infMag := of_decide_eq_true hyinf
      rw [if_pos hyinf]
      exact ⟨hy, by omega, le_rfl⟩
    · rw [if_neg hyinf, hx.toUnits, hy.toUnits]
      by_cases hzero : (x.units : Int) + y.units = 0
      · rw [if_pos hzero]
        have hxzero := isZero_of_units (x := x) (by omega)
        have hyzero := isZero_of_units (x := y) (by omega)
        exact ⟨nonneg_zero _, by omega, by omega⟩
      · have hsign : decide ((x.units : Int) + y.units < 0) = false := decide_eq_false (by omega)
        have habs : ((x.units : Int) + y.units).natAbs = x.units + y.units := by omega
        rw [if_neg hzero, hsign, habs, ofMag_val]
        have hxr : x.mag.val ≤ round f (x.units + y.units) 1 :=
          le_round one_pos (by rw [Nat.mul_one]; exact Nat.le_add_right _ _)
        have hyr : y.mag.val ≤ round f (x.units + y.units) 1 :=
          le_round one_pos (by rw [Nat.mul_one]; exact Nat.le_add_left _ _)
        exact ⟨nonneg_ofMag _, by omega, by omega⟩

/-- A sum of many. -/
theorem nonneg_sum (hf : 0 < f.infMag) : ∀ {xs : List (SoftFloat f)} {acc : SoftFloat f},
    Nonneg acc → (∀ x ∈ xs, Nonneg x) → Nonneg (xs.foldl add acc) ∧
      acc.mag.val ≤ (xs.foldl add acc).mag.val ∧ ∀ x ∈ xs, x.mag.val ≤ (xs.foldl add acc).mag.val
  | [], acc, hacc, _ => ⟨hacc, le_rfl, fun x hx => by cases hx⟩
  | y :: xs, acc, hacc, h => by
    obtain ⟨hadd, hleft, hright⟩ := nonneg_add hf hacc (h y List.mem_cons_self)
    obtain ⟨hrest, hfrom, hall⟩ := nonneg_sum hf hadd fun x hx => h x (List.mem_cons_of_mem _ hx)
    refine ⟨hrest, hleft.trans hfrom, fun x hx => ?_⟩
    rcases List.mem_cons.mp hx with rfl | hx
    · exact hright.trans hfrom
    · exact hall x hx

/-- The square of a number of at least `2 ^ e` units is at least `2 ^ k` units. -/
theorem le_mul_self {x : SoftFloat f} {e k : Nat} (hfin : x.isFinite = true) (hx : 2 ^ e ≤ x.units)
    (hk : f.prec - 1 ≤ k) (hsum : k + f.unitExp ≤ 2 * e) (hmax : powMag f k ≤ f.infMag) :
    powMag f k ≤ (x.mul x).mag.val := by
  have hlt : x.mag.val < f.infMag := of_decide_eq_true hfin
  have hnan : x.isNan = false := decide_eq_false (by omega)
  have hinf : x.isInfinite = false := decide_eq_false (by omega)
  unfold mul
  simp only [hnan, hinf, Bool.or_self, Bool.false_eq_true, if_false]
  rw [ofMag_val]
  refine le_min (le_round (by positivity) ?_) hmax
  rw [unitsOf_powMag hk, ← pow_add]
  calc 2 ^ (k + f.unitExp) ≤ 2 ^ (2 * e) := Nat.pow_le_pow_right (by decide) hsum
    _ = 2 ^ e * 2 ^ e := by rw [two_mul, pow_add]
    _ ≤ x.units * x.units := Nat.mul_le_mul hx hx

/-- The root of a finite number of at least `2 ^ k` units is at least `2 ^ e` units. -/
theorem le_sqrt {x : SoftFloat f} {e k : Nat} (hx : Nonneg x) (hfin : x.isFinite = true)
    (hk : 2 ^ k ≤ x.units) (he : f.prec - 1 ≤ e) (hsum : 2 * e ≤ k + f.unitExp)
    (hmax : powMag f e ≤ f.infMag) : powMag f e ≤ x.sqrt.mag.val := by
  have hlt : x.mag.val < f.infMag := of_decide_eq_true hfin
  have hinf : x.isInfinite = false := decide_eq_false (by omega)
  have hzero : x.isZero = false := by
    cases hz : x.isZero with
    | false => rfl
    | true =>
      have hval : x.mag.val = 0 := by simpa [isZero] using hz
      have hunits : x.units = 0 := by
        unfold units
        rw [hval]
        simp [unitsOf]
      have := Nat.two_pow_pos k
      omega
  have hneg : x.neg = false := by
    cases hn : x.neg with
    | false => rfl
    | true =>
      have hval := hx.sign hn
      simp [isZero, hval] at hzero
  unfold sqrt
  simp only [hx.number, hzero, hneg, hinf, Bool.false_eq_true, if_false]
  rw [ofMag_val]
  refine le_min (le_round (by decide) ?_) hmax
  rw [unitsOf_powMag he]
  have hroot : 2 ^ (e + 1) ≤ Nat.sqrt (x.units * 2 ^ f.unitExp * 4) := by
    rw [Nat.le_sqrt]
    calc 2 ^ (e + 1) * 2 ^ (e + 1) = 2 ^ (2 * e) * 4 := by
          rw [← pow_add, show e + 1 + (e + 1) = 2 * e + 2 by ring, pow_add]
          rfl
      _ ≤ 2 ^ (k + f.unitExp) * 4 := Nat.mul_le_mul_right _ (Nat.pow_le_pow_right (by decide) hsum)
      _ = 2 ^ k * 2 ^ f.unitExp * 4 := by rw [pow_add]
      _ ≤ x.units * 2 ^ f.unitExp * 4 := Nat.mul_le_mul_right _ (Nat.mul_le_mul_right _ hk)
  calc 2 ^ e * 4 = 2 * 2 ^ (e + 1) := by rw [pow_succ]; ring
    _ ≤ 2 * Nat.sqrt (x.units * 2 ^ f.unitExp * 4) := Nat.mul_le_mul_left _ hroot
    _ ≤ _ := Nat.le_add_right _ _

theorem nonneg_sqrt {x : SoftFloat f} (hx : Nonneg x) : Nonneg x.sqrt := by
  unfold sqrt
  simp only [hx.number, Bool.false_eq_true, if_false]
  split
  · exact hx
  · rename_i hzero
    have hneg : x.neg = false := by
      cases hn : x.neg with
      | false => rfl
      | true => exact absurd (by simp [isZero, hx.sign hn]) hzero
    simp only [hneg, Bool.false_eq_true, if_false]
    split
    · exact hx
    · exact nonneg_ofMag _

/-- A quotient is bounded where the divisor is not too small. -/
theorem mag_div_le {x y : SoftFloat f} {e : Nat} (hx : x.isFinite = true) (hy : Nonneg y)
    (hpos : y.mag.val ≠ 0) (he : f.prec - 1 ≤ e + f.unitExp) (hle : x.units ≤ 2 ^ e * y.units) :
    (x.div y).mag.val ≤ powMag f (e + f.unitExp) := by
  have hxlt : x.mag.val < f.infMag := of_decide_eq_true hx
  have hxnan : x.isNan = false := decide_eq_false (by omega)
  have hxinf : x.isInfinite = false := decide_eq_false (by omega)
  have hzero : y.isZero = false := by
    unfold isZero
    simpa using hpos
  unfold div
  simp only [hxnan, hy.number, hxinf, hzero, Bool.or_self, Bool.false_eq_true, if_false]
  by_cases hyinf : y.isInfinite = true
  · rw [if_pos hyinf]
    unfold zero
    rw [ofMag_val, Nat.zero_min]
    exact Nat.zero_le _
  · rw [if_neg hyinf, ofMag_val]
    have hunits : 0 < y.units := by
      rcases Nat.eq_zero_or_pos y.units with h0 | hp
      · exact absurd (isZero_of_units h0) hpos
      · exact hp
    refine (Nat.min_le_left _ _).trans (round_le hunits ?_)
    rw [unitsOf_powMag he, pow_add]
    calc x.units * 2 ^ f.unitExp ≤ 2 ^ e * y.units * 2 ^ f.unitExp := Nat.mul_le_mul_right _ hle
      _ = 2 ^ e * 2 ^ f.unitExp * y.units := by ring

/-- A quotient is finite where the divisor is not too small. -/
theorem isFinite_div {x y : SoftFloat f} {e : Nat} (hx : x.isFinite = true) (hy : Nonneg y)
    (hpos : y.mag.val ≠ 0) (he : f.prec - 1 ≤ e + f.unitExp) (hle : x.units ≤ 2 ^ e * y.units)
    (hmax : powMag f (e + f.unitExp) < f.infMag) : (x.div y).isFinite = true :=
  decide_eq_true ((mag_div_le hx hy hpos he hle).trans_lt hmax)

end SoftFloat
