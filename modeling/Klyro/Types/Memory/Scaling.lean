import Klyro.Lib.Special
import Klyro.Types.Memory.Components

/-!
# When a fused score is a number

* `IsSignal` — finite and at least zero: what a fusion weighs.
* `Stretched` — a score whose distance from the least one overflows; `isNan_scale` says that min-max
  normalization makes a NaN of exactly these, and of the others a signal.
* `signal_rrf`, `signal_recency`, `signal_clampUnit` — the other signals.
* `isNan_weigh` — a weighted sum is a NaN exactly when one of its signals is.
-/

set_option autoImplicit false

namespace Klyro

open SoftFloat

/-- A number a fusion can weigh: finite and at least zero. -/
structure IsSignal (x : F32) : Prop where
  nonneg : Nonneg x
  finite : x.isFinite = true

section signals

variable {x y w : F32} {values : List F32} {v : F32}

theorem IsSignal.isNan (h : IsSignal x) : x.isNan = false := h.nonneg.number

theorem signal_zero : IsSignal (SoftFloat.zero false) :=
  ⟨nonneg_zero false, by decide⟩

theorem signal_one : IsSignal (lit "1") :=
  ⟨⟨by decide +kernel, fun h => absurd h (by decide +kernel)⟩, by decide +kernel⟩

/-! ## Scaled scores -/

/-- There is a spread to normalize by, but the distance of this score from the least overflows. -/
def Stretched (values : List F32) (v : F32) : Prop :=
  SoftFloat.lt (SoftFloat.zero false)
      ((Numbers.f32.highest values).sub (Numbers.f32.lowest values)) = true ∧
    (v.sub (Numbers.f32.lowest values)).isFinite = false

instance : Decidable (Stretched values v) := by
  unfold Stretched
  infer_instance

theorem lowest_values (values : List F32) :
    Lowest (SoftFloat.inf false) values (Numbers.f32.lowest values) :=
  lowest_foldl values (isNan_inf false)

theorem highest_values (values : List F32) :
    Highest (SoftFloat.inf true) values (Numbers.f32.highest values) :=
  highest_foldl values (isNan_inf true)

theorem scale_linear (values : List F32) (v : F32) : Numbers.f32.scale values .linear v =
    if SoftFloat.lt (SoftFloat.zero false)
        ((Numbers.f32.highest values).sub (Numbers.f32.lowest values)) = true then
      (v.sub (Numbers.f32.lowest values)).div
        ((Numbers.f32.highest values).sub (Numbers.f32.lowest values))
    else lit "1" := rfl

theorem scale_rrf (values : List F32) (v : F32) : Numbers.f32.scale values .rrf v =
    SoftFloat.div (lit "1") (SoftFloat.add (lit "60") (Numbers.f32.rank values v)) := by
  unfold Numbers.scale
  dsimp only [Numbers.f32]

/-- A score that is not stretched is scaled to a signal. -/
theorem signal_linear (hv : v ∈ values) (h : ¬ Stretched values v) :
    IsSignal (Numbers.f32.scale values .linear v) := by
  rw [scale_linear]
  split
  · rename_i hspread
    have hfin : (v.sub (Numbers.f32.lowest values)).isFinite = true := by
      by_contra hinf
      exact h ⟨hspread, Bool.eq_false_iff.mpr hinf⟩
    obtain ⟨hnan, hkey⟩ := key_of_lt hspread
    have hdist := (isFinite_iff.mp hfin).1
    have hvnan := (number_of_sub (by decide) hdist).1
    have hlow := (lowest_values values).all v hv hvnan
    have hhigh := (highest_values values).all v hv hvnan
    have hunit := unit_div (by decide) (by decide) (nonneg_sub (by decide) (by decide) hlow hdist)
      (nonneg_of_key hnan hkey.le) hfin (isZero_of_key hkey)
      (mag_sub_mono (by decide) (by decide) hlow hhigh hdist hnan) (by decide)
    exact ⟨hunit.1, isFinite_of_mag hunit.2 (by decide)⟩
  · exact signal_one

/-- **Min-max normalization makes a NaN of a stretched score.** -/
theorem isNan_linear (hv : v ∈ values) (h : Stretched values v) :
    (Numbers.f32.scale values .linear v).isNan = true := by
  obtain ⟨hspread, hinf⟩ := h
  obtain ⟨hnan, hkey⟩ := key_of_lt hspread
  rw [scale_linear, if_pos hspread, isNan_div (by decide) (by decide)]
  cases hdist : (v.sub (Numbers.f32.lowest values)).isNan with
  | true => rfl
  | false =>
    -- an infinite distance is the whole spread
    have hdistinf : (v.sub (Numbers.f32.lowest values)).isInfinite = true := by
      by_contra hne
      have hfin := isFinite_iff.mpr ⟨hdist, Bool.eq_false_iff.mpr hne⟩
      rw [hfin] at hinf
      cases hinf
    have hvnan := (number_of_sub (by decide) hdist).1
    have hmono := mag_sub_mono (by decide) (by decide) ((lowest_values values).all v hv hvnan)
      ((highest_values values).all v hv hvnan) hdist hnan
    have hval : (v.sub (Numbers.f32.lowest values)).mag.val = Format.infMag ⟨24, 8⟩ :=
      of_decide_eq_true hdistinf
    have hle := (nonneg_of_key hnan hkey.le).le_infMag
    have hspreadinf :
        ((Numbers.f32.highest values).sub (Numbers.f32.lowest values)).isInfinite = true :=
      decide_eq_true (by omega)
    rw [hdistinf, hspreadinf]
    simp

/-- The share of a rank. -/
theorem signal_share {r : F32} (hr : Nonneg r) :
    IsSignal (SoftFloat.div (lit "1") (SoftFloat.add (lit "60") r)) := by
  have hsixty : Nonneg (lit "60" : F32) :=
    ⟨by decide +kernel, fun h => absurd h (by decide +kernel)⟩
  obtain ⟨hsum, hle, -⟩ := nonneg_add (by decide) hsixty hr
  have hone : (lit "1" : F32).mag.val ≤ (lit "60" : F32).mag.val := by decide +kernel
  have hpos : 0 < (lit "60" : F32).mag.val := by decide +kernel
  have hunit := unit_div (by decide) (by decide) signal_one.nonneg hsum signal_one.finite
    (beq_eq_false_iff_ne.mpr (by omega)) (hone.trans hle) (by decide)
  exact ⟨hunit.1, isFinite_of_mag hunit.2 (by decide)⟩

theorem nonneg_rank (n : Nat) : Nonneg (SoftFloat.add (SoftFloat.ofInt n) (lit "1") : F32) :=
  (nonneg_add (by decide) (nonneg_ofInt n) signal_one.nonneg).1

/-- Reciprocal ranks are signals, whatever the scores. -/
theorem signal_rrf (values : List F32) (v : F32) : IsSignal (Numbers.f32.scale values .rrf v) := by
  have hrank : Nonneg (Numbers.f32.rank values v) :=
    nonneg_rank (values.countP fun x => cmpFloat x v == .gt)
  rw [scale_rrf]
  exact signal_share hrank

/-! ## Recency and importance -/

/-- What is relied on of `powf`: one half to the power of a number of at least zero is at most one. -/
def Halves (powf : F64 → F64 → F64) : Prop :=
  ∀ x : F64, Nonneg x → Nonneg (powf (lit "0.5") x) ∧
    (powf (lit "0.5") x).mag.val ≤ (lit "1" : F64).mag.val

/-- A `Duration` is less than `2 ^ 64` seconds. -/
def InSeconds (d : Duration) : Prop := d < 2 ^ 64 * nanosPerSec

instance (d : Duration) : Decidable (InSeconds d) := Nat.decLt _ _

theorem nonneg_billion : Nonneg (SoftFloat.ofInt 1000000000 : F64) := nonneg_ofInt 1000000000

theorem nanos_lt (d : Duration) : d % nanosPerSec < 1000000000 := Nat.mod_lt _ (by decide)

/-- The part of a duration below the second. -/
theorem fraction (d : Duration) :
    Nonneg (SoftFloat.div (SoftFloat.ofInt (d % nanosPerSec : Nat)) (SoftFloat.ofInt 1000000000) : F64) ∧
      (SoftFloat.div (SoftFloat.ofInt (d % nanosPerSec : Nat))
        (SoftFloat.ofInt 1000000000) : F64).mag.val ≤ powMag ⟨53, 11⟩ (Format.unitExp ⟨53, 11⟩) := by
  have hnanos := nanos_lt d
  have hbound := mag_ofInt_le (f := ⟨53, 11⟩) (e := 30) (n := d % nanosPerSec)
    (hnanos.le.trans (by decide)) (by decide)
  have hle : (SoftFloat.ofInt (d % nanosPerSec : Nat) : F64).mag.val ≤
      (SoftFloat.ofInt 1000000000 : F64).mag.val := by
    unfold ofInt
    rw [ofMag_val, ofMag_val]
    refine min_le_min_right _ (round_mono one_pos (Nat.mul_le_mul_right _ ?_))
    rw [Int.natAbs_natCast]
    exact hnanos.le
  exact unit_div (by decide) (by decide) (nonneg_ofInt _) nonneg_billion
    (isFinite_of_mag hbound (by decide)) (by decide +kernel) hle (by decide)

theorem nonneg_asSecsF64 (d : Duration) : Nonneg (asSecsF64 d) :=
  (nonneg_add (by decide) (nonneg_ofInt _) (fraction d).1).1

theorem finite_asSecsF64 {d : Duration} (h : InSeconds d) : (asSecsF64 d).isFinite = true := by
  have hsecs : d / nanosPerSec ≤ 2 ^ 64 := (Nat.div_lt_of_lt_mul (by
    unfold InSeconds at h
    rwa [Nat.mul_comm] at h)).le
  have hwhole := mag_ofInt_le (f := ⟨53, 11⟩) hsecs (by decide)
  have hfraction := (fraction d).2
  have hle : (2 : Nat) ^ Format.unitExp ⟨53, 11⟩ ≤ 2 ^ (64 + Format.unitExp ⟨53, 11⟩) :=
    Nat.pow_le_pow_right (by decide) (by decide)
  have hsum := mag_add_le (f := ⟨53, 11⟩) (isFinite_of_mag hwhole (by decide))
    (isFinite_of_mag hfraction (by decide)) (units_le_of_mag (by decide) hwhole)
    ((units_le_of_mag (by decide) hfraction).trans hle) (by decide)
  exact isFinite_of_mag hsum (by decide)

/-- A number of at most one stays one when it is made shorter. -/
theorem signal_cast {x : F64} (hx : Nonneg x) (hle : x.mag.val ≤ (lit "1" : F64).mag.val) :
    IsSignal (SoftFloat.cast x) := by
  have hone : (lit "1" : F64).mag.val ≤ powMag ⟨53, 11⟩ (Format.unitExp ⟨53, 11⟩) := by
    decide +kernel
  have hinf : x.isInfinite = false :=
    (isFinite_iff.mp (isFinite_of_mag (hle.trans hone) (by decide))).2
  have hcast : (SoftFloat.cast x : F32) = ofMag x.neg (round ⟨24, 8⟩
      (x.units * 2 ^ Format.unitExp ⟨24, 8⟩) (2 ^ Format.unitExp ⟨53, 11⟩)) := by
    unfold SoftFloat.cast
    rw [hx.number, hinf]
    rfl
  rw [hcast]
  refine ⟨⟨isNan_ofMag _ _, fun hneg => ?_⟩, ?_⟩
  · rw [units_of_zero (hx.sign hneg), Nat.zero_mul, round_zero (Nat.two_pow_pos _), ofMag_val,
      Nat.zero_min]
  · refine isFinite_of_mag (e := Format.unitExp ⟨24, 8⟩) ?_ (by decide)
    rw [ofMag_val]
    refine (Nat.min_le_left _ _).trans (SoftFloat.round_le (Nat.two_pow_pos _) ?_)
    rw [unitsOf_powMag (by decide), Nat.mul_comm]
    exact Nat.mul_le_mul_left _ (units_le_of_mag (by decide) (hle.trans hone))

/-- The recency of a record is a signal. -/
theorem signal_recency {powf : F64 → F64 → F64} (hpowf : Halves powf) {halfLife : Duration}
    (hd : InSeconds halfLife) (updatedAt now : SystemTime) :
    IsSignal (recencyScore powf updatedAt now halfLife) := by
  have hone : (lit "1" : F64).isFinite = true ∧ (lit "1" : F64).isNan = false ∧
      0 < (lit "1" : F64).key := by decide +kernel
  have hhalf := nonneg_asSecsF64 halfLife
  -- the divisor is finite and at least one
  have hdivisor : Nonneg ((asSecsF64 halfLife).fmax (lit "1")) ∧
      ((asSecsF64 halfLife).fmax (lit "1")).isFinite = true ∧
      ((asSecsF64 halfLife).fmax (lit "1")).isZero = false := by
    rw [fmax_eq hhalf.number]
    split
    · exact ⟨nonneg_of_key hone.2.1 hone.2.2.le, hone.1, isZero_of_key hone.2.2⟩
    · rename_i h
      have hle : (lit "1" : F64).key ≤ (asSecsF64 halfLife).key :=
        not_lt.mp fun hlt => h ⟨hone.2.1, hlt⟩
      exact ⟨hhalf, finite_asSecsF64 hd, isZero_of_key (hone.2.2.trans_le hle)⟩
  obtain ⟨hnonneg, hfin, hzero⟩ := hdivisor
  have hage : Nonneg ((durationSince now updatedAt).map asSecsF64 |>.getD (SoftFloat.zero false)) := by
    cases durationSince now updatedAt with
    | none =>
      rw [Option.map_none, Option.getD_none]
      exact nonneg_zero false
    | some d =>
      rw [Option.map_some, Option.getD_some]
      exact nonneg_asSecsF64 d
  have hquotient := nonneg_div (by decide) (by decide) hage hnonneg
    (by rw [(isFinite_iff.mp hfin).2, Bool.and_false]) hzero
  obtain ⟨hpow, hle⟩ := hpowf _ hquotient
  unfold recencyScore
  exact signal_cast hpow hle

/-- Clamping leaves a signal or a NaN. -/
theorem signal_clampUnit (h : x.isNan = false) : IsSignal (clampUnit x) := by
  unfold clampUnit
  rw [lt_eq h (isNan_zero _), lt_eq signal_one.isNan h]
  split
  · exact signal_zero
  · rename_i hneg
    have hkey : 0 ≤ x.key := not_lt.mp fun hlt => hneg (decide_eq_true hlt)
    split
    · exact signal_one
    · rename_i hbig
      have hle : x.key ≤ (lit "1" : F32).key := not_lt.mp fun hlt => hbig (decide_eq_true hlt)
      have hone : (lit "1" : F32).key < Format.infMag ⟨24, 8⟩ := by decide +kernel
      have hpos : (0 : Int) < Format.infMag ⟨24, 8⟩ := by decide
      exact ⟨nonneg_of_key h hkey, isFinite_iff_key.mpr ⟨by omega, by omega⟩⟩

theorem clampUnit_nan (h : x.isNan = true) : clampUnit x = x := by
  unfold clampUnit
  rw [lt_nan (by rw [h, Bool.true_or]), lt_nan (by rw [h, Bool.or_true])]
  rfl

theorem isNan_clampUnit (x : F32) : (clampUnit x).isNan = x.isNan := by
  cases h : x.isNan with
  | true => rw [clampUnit_nan h, h]
  | false => exact (signal_clampUnit h).isNan

/-! ## The weighted sum -/

theorem Weights.signal {weights : Weights} (h : weights.isValid = true) :
    IsSignal weights.keyword ∧ IsSignal weights.vector ∧ IsSignal weights.recency ∧
      IsSignal weights.importance := by
  have hone : ∀ {x : F32}, (x.isFinite && SoftFloat.le (SoftFloat.zero false) x) = true →
      IsSignal x := by
    intro x hx
    rw [Bool.and_eq_true] at hx
    have hnan := (isFinite_iff.mp hx.1).1
    refine ⟨nonneg_of_key hnan ?_, hx.1⟩
    have hle := hx.2
    unfold SoftFloat.le SoftFloat.partialCmp at hle
    rw [isNan_zero, hnan] at hle
    by_contra hlt
    have hgt : compare (SoftFloat.zero false : F32).key x.key = .gt :=
      compare_gt_iff_gt.mpr (not_le.mp hlt)
    rw [hgt] at hle
    exact absurd hle (by decide)
  have hall := List.all_eq_true.mp h
  exact ⟨hone (hall _ (by simp)), hone (hall _ (by simp)), hone (hall _ (by simp)),
    hone (hall _ (by simp))⟩

/-- A weighted signal, which may be a NaN. -/
theorem weighted (hw : IsSignal w) (hx : x.isNan = false → IsSignal x) :
    (w.mul x).isNan = x.isNan ∧ (x.isNan = false → Nonneg (w.mul x)) := by
  cases hnan : x.isNan with
  | true =>
    refine ⟨?_, fun h => by cases h⟩
    rw [isNan_mul (by decide), hnan, Bool.or_true, Bool.true_or]
  | false =>
    have hsignal := hx hnan
    have hmul := nonneg_mul hw.nonneg hsignal.nonneg hw.finite hsignal.finite
    exact ⟨hmul.number, fun _ => hmul⟩

theorem summed (hx : x.isNan = false → Nonneg x) (hy : y.isNan = false → Nonneg y) :
    (x.add y).isNan = (x.isNan || y.isNan) ∧ ((x.add y).isNan = false → Nonneg (x.add y)) := by
  by_cases hnan : (x.isNan || y.isNan) = true
  · have hsum : (x.add y).isNan = true := by rw [isNan_add (by decide), hnan, Bool.true_or]
    refine ⟨hsum.trans hnan.symm, fun h => ?_⟩
    rw [hsum] at h
    cases h
  · have hboth := Bool.or_eq_false_iff.mp (Bool.eq_false_iff.mpr hnan)
    have hsum := (nonneg_add (by decide) (hx hboth.1) (hy hboth.2)).1
    exact ⟨hsum.number.trans (Bool.eq_false_iff.mpr hnan).symm, fun _ => hsum⟩

/-- **A weighted sum is a NaN exactly when one of its signals is.** -/
theorem isNan_weigh {weights : Weights} (hw : weights.isValid = true) {k v r i : F32}
    (hk : k.isNan = false → IsSignal k) (hv : v.isNan = false → IsSignal v)
    (hr : r.isNan = false → IsSignal r) (hi : i.isNan = false → IsSignal i) :
    (Numbers.f32.weigh weights.signals ⟨k, v, r, i⟩).isNan =
      (((k.isNan || v.isNan) || r.isNan) || i.isNan) := by
  obtain ⟨hwk, hwv, hwr, hwi⟩ := Weights.signal hw
  obtain ⟨hk₁, hk₂⟩ := weighted hwk hk
  obtain ⟨hv₁, hv₂⟩ := weighted hwv hv
  obtain ⟨hr₁, hr₂⟩ := weighted hwr hr
  obtain ⟨hi₁, hi₂⟩ := weighted hwi hi
  obtain ⟨hkv₁, hkv₂⟩ := summed (fun h => hk₂ (hk₁ ▸ h)) (fun h => hv₂ (hv₁ ▸ h))
  obtain ⟨hkvr₁, hkvr₂⟩ := summed hkv₂ (fun h => hr₂ (hr₁ ▸ h))
  obtain ⟨hall, -⟩ := summed hkvr₂ (fun h => hi₂ (hi₁ ▸ h))
  rw [hkvr₁, hkv₁, hk₁, hv₁, hr₁, hi₁] at hall
  exact hall

end signals

end Klyro
