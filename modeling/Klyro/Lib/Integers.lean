import Klyro.Lib.Special

/-!
# Small integers are exact

* `unitsOf_round_natural` — an integer of at most `prec` digits is a magnitude of the format, however
  far it is shifted.
* `IsNumber` — a value that is an integer.
* `number_ofInt`, `add_ofInt` — conversion and addition do not round while the result has at most
  `prec` digits.
-/

set_option autoImplicit false

namespace SoftFloat

variable {f : Format}

/-- The magnitude with a significand `q` and a shift `k`. -/
theorem unitsOf_field {q k : Nat} (hq : q < 2 * f.hidden) (hk : k = 0 ∨ f.hidden ≤ q) :
    unitsOf f (k * f.hidden + q) = q * 2 ^ k := by
  have hh := f.hidden_pos
  by_cases hsmall : q < f.hidden
  · have hzero : k = 0 := by omega
    unfold unitsOf
    rw [hzero, Nat.zero_mul, Nat.zero_add, Nat.div_eq_of_lt hsmall, if_pos rfl,
      Nat.mod_eq_of_lt hsmall, pow_zero, Nat.mul_one]
  · have hfield : k * f.hidden + q = (k + 1) * f.hidden + (q - f.hidden) := by
      rw [Nat.succ_mul]
      omega
    have hrest : q - f.hidden < f.hidden := by omega
    unfold unitsOf
    rw [hfield, Nat.mul_add_mod_of_lt hrest, Nat.add_comm, Nat.add_mul_div_right _ _ hh,
      Nat.div_eq_of_lt hrest, if_neg (by omega), Nat.zero_add, Nat.add_sub_cancel]
    congr 1
    omega

theorem log2_mul_pow {n : Nat} (hn : n ≠ 0) (u : Nat) : (n * 2 ^ u).log2 = n.log2 + u := by
  obtain ⟨hlow, hhigh⟩ := (Nat.log2_eq_iff hn).mp rfl
  rw [Nat.log2_eq_iff (Nat.mul_ne_zero hn (Nat.two_pow_pos u).ne')]
  refine ⟨?_, ?_⟩
  · rw [pow_add]
    exact Nat.mul_le_mul_right _ hlow
  · rw [Nat.add_right_comm, pow_add]
    exact Nat.mul_lt_mul_of_pos_right hhigh (Nat.two_pow_pos u)

/-- **An integer of few digits, shifted, is a magnitude of the format.** -/
theorem unitsOf_round_short (hp : 0 < f.prec) {n : Nat} (hn : n < 2 ^ f.prec) (u : Nat) :
    unitsOf f (round f (n * 2 ^ u) 1) = n * 2 ^ u := by
  have hdouble : 2 ^ f.prec = 2 * f.hidden := by
    unfold Format.hidden
    rw [← pow_succ', Nat.sub_add_cancel hp]
  by_cases hzero : n = 0
  · rw [hzero, Nat.zero_mul, round_zero one_pos]
    simp [unitsOf]
  have hlog := log2_mul_pow hzero u
  have hshort : n.log2 < f.prec := (Nat.log2_lt hzero).mpr hn
  obtain ⟨k, hk⟩ : ∃ k, (n * 2 ^ u).log2 - (f.prec - 1) = k := ⟨_, rfl⟩
  have hku : k ≤ u := by omega
  have hsplit : n * 2 ^ u = n * 2 ^ (u - k) * 2 ^ k := by
    rw [Nat.mul_assoc, ← pow_add, Nat.sub_add_cancel hku]
  have hround : round f (n * 2 ^ u) 1 = k * f.hidden + n * 2 ^ (u - k) := by
    unfold round
    rw [Nat.div_one, hk]
    dsimp only
    rw [Nat.one_mul, hsplit, halfEven_exact _ (Nat.two_pow_pos k)]
  have hq : n * 2 ^ (u - k) ≠ 0 := Nat.mul_ne_zero hzero (Nat.two_pow_pos _).ne'
  have hqlog := log2_mul_pow hzero (u - k)
  rw [hround, unitsOf_field, ← hsplit]
  · rw [← hdouble]
    exact (Nat.log2_lt hq).mp (by omega)
  · by_cases hk0 : k = 0
    · exact .inl hk0
    · refine .inr ?_
      unfold Format.hidden
      exact (Nat.le_log2 hq).mp (by omega)

theorem unitsOf_round_natural (hp : 0 < f.prec) {n : Nat} (hn : n ≤ 2 ^ f.prec) (u : Nat) :
    unitsOf f (round f (n * 2 ^ u) 1) = n * 2 ^ u := by
  rcases Nat.lt_or_eq_of_le hn with hlt | rfl
  · exact unitsOf_round_short hp hlt u
  · -- the power of two itself is a shifted one
    have hone : 2 ^ f.prec * 2 ^ u = 1 * 2 ^ (f.prec + u) := by rw [pow_add, Nat.one_mul]
    rw [hone]
    exact unitsOf_round_short hp (Nat.one_lt_two_pow hp.ne') _

/-- The value is this integer. -/
structure IsNumber (x : SoftFloat f) (n : Nat) : Prop where
  finite : x.isFinite = true
  value : x.toUnits = (n * 2 ^ f.unitExp : Nat)

instance (x : SoftFloat f) (n : Nat) : Decidable (IsNumber x n) :=
  decidable_of_iff (x.isFinite = true ∧ x.toUnits = (n * 2 ^ f.unitExp : Nat))
    ⟨fun h => ⟨h.1, h.2⟩, fun h => ⟨h.finite, h.value⟩⟩

section exact

variable {a b n : Nat}

/-- **A small integer is converted exactly.** -/
theorem number_ofInt (hp : 0 < f.prec) (hmax : powMag f (f.prec + f.unitExp) < f.infMag)
    (hn : n ≤ 2 ^ f.prec) : IsNumber (ofInt n : SoftFloat f) n := by
  have hfinite : (ofInt n : SoftFloat f).isFinite = true :=
    isFinite_of_mag (mag_ofInt_le hn (by omega)) hmax
  refine ⟨hfinite, ?_⟩
  have hmag : (ofInt n : SoftFloat f).mag.val = round f (n * 2 ^ f.unitExp) 1 := by
    have hlt := of_decide_eq_true hfinite
    unfold ofInt at hlt ⊢
    rw [ofMag_val, Int.natAbs_natCast] at hlt ⊢
    omega
  rw [(nonneg_ofInt n).toUnits]
  unfold units
  rw [hmag, unitsOf_round_natural hp hn]

/-- **Small integers are added exactly.** -/
theorem add_ofInt (hp : 0 < f.prec) (hmax : powMag f (f.prec + f.unitExp) < f.infMag)
    (hab : a + b ≤ 2 ^ f.prec) : (ofInt a : SoftFloat f).add (ofInt b) = ofInt (a + b : Nat) := by
  obtain ⟨hafin, ha⟩ := number_ofInt hp hmax (n := a) (by omega)
  obtain ⟨hbfin, hb⟩ := number_ofInt hp hmax (n := b) (by omega)
  obtain ⟨hanan, hainf⟩ := isFinite_iff.mp hafin
  obtain ⟨hbnan, hbinf⟩ := isFinite_iff.mp hbfin
  have hsum : (ofInt a : SoftFloat f).toUnits + (ofInt b : SoftFloat f).toUnits =
      ((a + b) * 2 ^ f.unitExp : Nat) := by
    rw [ha, hb, Nat.add_mul, Int.natCast_add]
  unfold add
  simp only [hanan, hbnan, hainf, hbinf, Bool.or_self, Bool.false_eq_true, if_false, hsum]
  split
  · rename_i hzero
    have hnone : a + b = 0 := by
      have hpos := Nat.two_pow_pos f.unitExp
      have := Int.natCast_eq_zero.mp hzero
      exact (Nat.mul_eq_zero.mp this).resolve_right hpos.ne'
    have hboth : a = 0 ∧ b = 0 := by omega
    have hofInt : (ofInt (0 : Nat) : SoftFloat f) = zero false := by
      unfold ofInt zero
      rw [Int.natAbs_natCast, Nat.zero_mul, round_zero one_pos]
      rfl
    rw [hboth.1, hboth.2, hofInt]
    rfl
  · rw [decide_eq_false (by omega), Int.natAbs_natCast]
    unfold ofInt
    rw [decide_eq_false (by omega), Int.natAbs_natCast]

end exact

end SoftFloat
