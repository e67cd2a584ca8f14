import SciCalc.Proofs.Decimal.ReadingBack
import SciCalc.Proofs.Double.Bounds

/-! # Bounds of decimals

How far the digits of a decimal reach is known from the powers of ten around it. What is at least a
power of two is not read as a smaller number.
-/

namespace SciCalc.Decimal

/-- The number that a decimal stands for, without its sign. -/
def size (d : Decimal) : ℚ := d.digits * (10 : ℚ) ^ d.exponent

section Length

variable {d : Decimal} {place : Int}

/-- How far the digits of a decimal reach is known from a power of ten above it. -/
theorem decimalLength_add_le (hdigits : d.digits ≠ 0) (hless : d.size < (10 : ℚ) ^ place) :
    (decimalLength d.digits : Int) + d.exponent ≤ place := by
  have hlog : (Nat.log 10 d.digits : Int) + d.exponent < place := by
    refine (zpow_lt_zpow_iff_right₀ (by norm_num : (1 : ℚ) < 10)).mp ?_
    refine lt_of_le_of_lt ?_ hless
    rw [zpow_add₀ (by norm_num), zpow_natCast]
    refine mul_le_mul_of_nonneg_right ?_ (by positivity)
    exact_mod_cast Nat.pow_log_le_self 10 hdigits
  rw [decimalLength_eq_log (Nat.pos_of_ne_zero hdigits)]
  omega

theorem lt_decimalLength_add (hdigits : d.digits ≠ 0) (hle : (10 : ℚ) ^ place ≤ d.size) :
    place < (decimalLength d.digits : Int) + d.exponent := by
  rw [decimalLength_eq_log (Nat.pos_of_ne_zero hdigits)]
  refine (zpow_lt_zpow_iff_right₀ (by norm_num : (1 : ℚ) < 10)).mp (lt_of_le_of_lt hle ?_)
  rw [zpow_add₀ (by norm_num), zpow_natCast]
  refine mul_lt_mul_of_pos_right ?_ (by positivity)
  exact_mod_cast Nat.lt_pow_succ_log_self (show 1 < 10 by decide) d.digits

end Length

/-- A decimal that is at least a power of two is not read as a smaller number. -/
theorem le_abs_toRat_toDouble {d : Decimal} {bits : Nat} (hle : (2 : ℚ) ^ bits ≤ d.size)
    (hfinite : d.toDouble.isFinite = true) : (2 : ℚ) ^ bits ≤ |d.toDouble.toRat| := by
  have hdigits : d.digits ≠ 0 := by
    intro hzero
    rw [size, hzero, Nat.cast_zero, zero_mul] at hle
    exact absurd hle (not_le.mpr (by positivity))
  have hone : (10 : ℚ) ^ (0 : Int) ≤ d.size := by
    rw [zpow_zero]
    exact (one_le_pow₀ (by norm_num)).trans hle
  have hlower := lt_decimalLength_add hdigits hone
  simp only [toDouble, hdigits, if_false] at hfinite ⊢
  split at hfinite
  · exact absurd hfinite Bool.false_ne_true
  next hrange =>
    rw [if_neg hrange, if_neg (by omega)]
    rw [if_neg (by omega)] at hfinite
    rw [scaleTen_eq_scaleBy] at hfinite ⊢
    have hratio : ((scaleBy 10 d.digits 1 d.exponent).1 : ℚ) /
        (scaleBy 10 d.digits 1 d.exponent).2 = d.size := by
      rw [ratio_scaleBy, Nat.cast_one, div_one]
      rfl
    have hden := scaleBy_den_pos (show 0 < 10 by decide) d.digits d.exponent Nat.one_pos
    have hnum : 0 < (scaleBy 10 d.digits 1 d.exponent).1 := by
      refine Nat.pos_of_ne_zero fun hzero => ?_
      rw [hzero, Nat.cast_zero, zero_div] at hratio
      rw [← hratio] at hle
      exact absurd hle (not_le.mpr (by positivity))
    have hpower : (2 : ℚ) ^ (bits : Int) ≤ ((scaleBy 10 d.digits 1 d.exponent).1 : ℚ) /
        (scaleBy 10 d.digits 1 d.exponent).2 := by
      rw [hratio, zpow_natCast]
      exact hle
    have hleast : leastExponent ≤ (bits : Int) :=
      le_trans (by decide) (Int.natCast_nonneg bits)
    have hkept := Double.le_abs_toRat_ofFraction hnum hden hleast hpower hfinite
    rwa [zpow_natCast] at hkept

end SciCalc.Decimal
