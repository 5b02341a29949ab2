import Klyro.Lib.Rounding
import Klyro.Types.Memory.Vector

/-!
# Normalized vectors are finite

The length of a vector of finite numbers may underflow or overflow, but dividing by it never makes
an infinity: `normalized_finite`.
-/

set_option autoImplicit false

namespace Klyro

open SoftFloat

variable {values : List F32} {x : F32}

/-- Every number of a vector is finite. -/
def AllFinite (values : List F32) : Prop := ∀ x ∈ values, x.isFinite = true

theorem nonneg_squares (h : AllFinite values) : ∀ y ∈ values.map (fun v => v.mul v), Nonneg y := by
  intro y hy
  obtain ⟨v, hv, rfl⟩ := List.mem_map.mp hy
  exact nonneg_mul_self (h v hv)

/-- The sum of squares is no less than any of them. -/
theorem sum_squares (h : AllFinite values) :
    Nonneg (sumF32 (values.map fun v => v.mul v)) ∧
      ∀ x ∈ values, (x.mul x).mag.val ≤ (sumF32 (values.map fun v => v.mul v)).mag.val := by
  obtain ⟨hsum, -, hall⟩ := nonneg_sum (by decide) (nonneg_zero true) (nonneg_squares h)
  exact ⟨hsum, fun x hx => hall _ (List.mem_map_of_mem hx)⟩

theorem units_of_mag {x : F32} {e : Nat} (he : 23 ≤ e) (h : powMag ⟨24, 8⟩ e ≤ x.mag.val) :
    2 ^ e ≤ x.units :=
  (unitsOf_powMag he).symm.trans_le (unitsOf_mono h)

/-- A length that is not zero is at least `2 ^ -75`, and nearly as much as any large number of the
vector. -/
theorem norm_bounds (h : AllFinite values) (hpos : (norm values).mag.val ≠ 0) :
    2 ^ 74 ≤ (norm values).units ∧
      ∀ x ∈ values, 2 ^ 201 ≤ x.units → 2 ^ 201 ≤ (norm values).units := by
  obtain ⟨hsum, hterms⟩ := sum_squares h
  unfold norm at hpos ⊢
  generalize sumF32 (values.map fun v => v.mul v) = total at hsum hterms hpos ⊢
  by_cases hfin : total.isFinite = true
  · have hunits : 2 ^ 0 ≤ total.units := by
      rcases Nat.eq_zero_or_pos total.units with h0 | hp
      · refine absurd ?_ hpos
        unfold SoftFloat.sqrt
        rw [hsum.number]
        simp [isZero, isZero_of_units h0]
      · exact hp
    refine ⟨units_of_mag (by decide) (le_sqrt hsum hfin hunits (by decide) (by decide) (by decide)), ?_⟩
    intro x hx hlarge
    have hsquare : powMag ⟨24, 8⟩ 253 ≤ (x.mul x).mag.val :=
      le_mul_self (h x hx) hlarge (by decide) (by decide) (by decide)
    have htotal : 2 ^ 253 ≤ total.units := units_of_mag (by decide) (hsquare.trans (hterms x hx))
    exact units_of_mag (by decide) (le_sqrt hsum hfin htotal (by decide) (by decide) (by decide))
  · -- an infinite sum is its own root
    have hval : total.mag.val = Format.infMag ⟨24, 8⟩ := by
      have hle := hsum.le_infMag
      have hge : ¬ total.mag.val < Format.infMag ⟨24, 8⟩ := fun hlt => hfin (decide_eq_true hlt)
      omega
    have hroot : total.sqrt = total := by
      have hinf : total.isInfinite = true := decide_eq_true hval
      have hneg := hsum.sign_of_infinite (by decide) hinf
      unfold SoftFloat.sqrt
      simp [hsum.number, hneg, hinf]
    rw [hroot]
    refine ⟨units_of_mag (by decide) ?_, fun _ _ _ => units_of_mag (by decide) ?_⟩
    · rw [hval]
      decide
    · rw [hval]
      decide

/-- **Dividing a finite vector by its length leaves it finite.** -/
theorem normalized_finite (h : AllFinite values) : AllFinite (normalized values) := by
  unfold normalized
  dsimp only
  split
  · rename_i hlt
    have hpos : (norm values).mag.val ≠ 0 := by
      intro h0
      have hkey : (norm values).key = 0 := by
        unfold key
        rw [h0]
        split <;> rfl
      have hzero : (SoftFloat.zero false : F32).key = 0 := by decide
      unfold SoftFloat.lt partialCmp at hlt
      rw [hkey, hzero] at hlt
      split at hlt
      · cases hlt
      · simp [compare, compareOfLessAndEq] at hlt
    have hroot : Nonneg (norm values) := nonneg_sqrt (sum_squares h).1
    obtain ⟨hsmall, hlarge⟩ := norm_bounds h hpos
    intro y hy
    obtain ⟨x, hx, rfl⟩ := List.mem_map.mp hy
    refine isFinite_div (e := 127) (h x hx) hroot hpos (by decide) ?_ (by decide)
    by_cases hbig : 2 ^ 201 ≤ x.units
    · have hlt' : x.mag.val < Format.infMag ⟨24, 8⟩ := of_decide_eq_true (h x hx)
      have htop : unitsOf ⟨24, 8⟩ (Format.infMag ⟨24, 8⟩) ≤ 2 ^ 127 * 2 ^ 201 := by decide +kernel
      calc x.units ≤ unitsOf ⟨24, 8⟩ (Format.infMag ⟨24, 8⟩) := unitsOf_mono hlt'.le
        _ ≤ 2 ^ 127 * 2 ^ 201 := htop
        _ ≤ 2 ^ 127 * (norm values).units := Nat.mul_le_mul_left _ (hlarge x hx hbig)
    · calc x.units ≤ 2 ^ 127 * 2 ^ 74 := by rw [← pow_add]; omega
        _ ≤ 2 ^ 127 * (norm values).units := Nat.mul_le_mul_left _ hsmall
  · exact h

end Klyro
