import SciCalc.Double.Basic
import SciCalc.Proofs.Numeric.Quotient

/-! # Rounding to doubles

The double nearest to a fraction depends only on the number that the fraction stands for, and a
number that is a double is rounded to itself.
-/

namespace SciCalc.Double

/-- The only double with the mantissa zero is the zero. -/
theorem finite_zero (negative : Bool) {exponent : Int} (canonical : IsCanonical 0 exponent) :
    finite negative 0 exponent canonical = zero negative := by
  obtain ⟨-, -, -, hleast⟩ := canonical
  obtain rfl : exponent = leastExponent := hleast.resolve_left (by decide)
  rfl

theorem ofMantissa_of_canonical (negative : Bool) {mantissa : Nat} {exponent : Int}
    (canonical : IsCanonical mantissa exponent) :
    ofMantissa negative mantissa exponent = finite negative mantissa exponent canonical := by
  rw [ofMantissa, dif_pos canonical]

/-- The rounding of a positive fraction, with its steps written out. -/
theorem ofFraction_of_pos (negative : Bool) {num : Nat} (hnum : 0 < num) (den : Nat) :
    ofFraction negative num den =
      ofMantissa negative
        (roundDiv (scaleBy 2 num den (-lastPlace num den)).1
          (scaleBy 2 num den (-lastPlace num den)).2)
        (lastPlace num den) := by
  simp only [ofFraction, hnum.ne', if_false, scaleTwo_eq_scaleBy]

section Ratio

variable {num den num' den' : Nat}

theorem lastPlace_eq (hnum : 0 < num) (hden : 0 < den) :
    lastPlace num den = max (Int.log 2 ((num : ℚ) / den) - 52) leastExponent := by
  rw [lastPlace, binade_eq_log hnum hden]

/-- Fractions of the same number are rounded to the same double. -/
theorem ofFraction_congr (negative : Bool) (hden : 0 < den) (hden' : 0 < den')
    (hratio : (num : ℚ) / den = num' / den') :
    ofFraction negative num den = ofFraction negative num' den' := by
  have hcross := cross_mul_of_ratio_eq hden hden' hratio
  rcases Nat.eq_zero_or_pos num with rfl | hnum
  · obtain rfl : num' = 0 := by simpa [hden.ne'] using hcross.symm
    rfl
  · have hnum' : 0 < num' := by
      refine Nat.pos_of_ne_zero fun hzero => ?_
      rw [hzero, Nat.zero_mul] at hcross
      exact absurd hcross (Nat.mul_pos hnum hden').ne'
    have hplace : lastPlace num den = lastPlace num' den' := by
      rw [lastPlace_eq hnum hden, lastPlace_eq hnum' hden', hratio]
    rw [ofFraction_of_pos negative hnum, ofFraction_of_pos negative hnum', hplace]
    congr 1
    refine roundDiv_congr (scaleBy_den_pos Nat.two_pos _ _ hden)
      (scaleBy_den_pos Nat.two_pos _ _ hden') ?_
    rw [ratio_scaleBy, ratio_scaleBy, hratio]

/-- The last place of a double that is not zero is its exponent. -/
theorem lastPlace_of_canonical {mantissa : Nat} {exponent : Int} (hnum : 0 < num)
    (hden : 0 < den) (canonical : IsCanonical mantissa exponent) (hmantissa : 0 < mantissa)
    (hvalue : (num : ℚ) / den = mantissa * (2 : ℚ) ^ exponent) :
    lastPlace num den = exponent := by
  obtain ⟨hbound, hleast, -, hnormal⟩ := canonical
  have hlower : ((2 : Nat) : ℚ) ^ ((Nat.log 2 mantissa : Int) + exponent) ≤ num / den := by
    rw [hvalue, zpow_add₀ (by norm_num), zpow_natCast]
    have hpower : ((2 : Nat) : ℚ) ^ Nat.log 2 mantissa ≤ mantissa := by
      exact_mod_cast Nat.pow_log_le_self 2 hmantissa.ne'
    exact mul_le_mul_of_nonneg_right hpower (by positivity)
  have hupper : (num : ℚ) / den <
      ((2 : Nat) : ℚ) ^ ((Nat.log 2 mantissa : Int) + exponent + 1) := by
    rw [hvalue, add_right_comm, zpow_add₀ (by norm_num), ← Nat.cast_succ, zpow_natCast]
    have hpower : (mantissa : ℚ) < ((2 : Nat) : ℚ) ^ (Nat.log 2 mantissa).succ := by
      exact_mod_cast Nat.lt_pow_succ_log_self Nat.one_lt_two mantissa
    exact mul_lt_mul_of_pos_right hpower (by positivity)
  have hlog := log_eq_of_zpow_le_of_lt_zpow Nat.one_lt_two hlower hupper
  have hdigits : Nat.log 2 mantissa < 53 := Nat.log_lt_of_lt_pow hmantissa.ne' hbound
  rw [lastPlace_eq hnum hden, hlog]
  -- A normal mantissa has all of the 53 digits; a subnormal one has the least exponent.
  rcases hnormal with hnormal | rfl
  · have hfull : 52 ≤ Nat.log 2 mantissa := Nat.le_log_of_pow_le Nat.one_lt_two hnormal
    omega
  · omega

/-- A double is the nearest double to its own value. -/
theorem ofFraction_eq_finite (negative : Bool) {mantissa : Nat} {exponent : Int}
    (hden : 0 < den) (canonical : IsCanonical mantissa exponent)
    (hvalue : (num : ℚ) / den = mantissa * (2 : ℚ) ^ exponent) :
    ofFraction negative num den = finite negative mantissa exponent canonical := by
  rcases Nat.eq_zero_or_pos mantissa with rfl | hmantissa
  · have hzero : num = 0 := by simpa [hden.ne'] using hvalue
    rw [hzero, finite_zero]
    rfl
  · have hnum : 0 < num := by
      refine Nat.pos_of_ne_zero fun hzero => ?_
      rw [hzero, Nat.cast_zero, zero_div] at hvalue
      exact absurd hvalue.symm (by positivity)
    have hplace := lastPlace_of_canonical hnum hden canonical hmantissa hvalue
    have hmantissaEq : ((scaleBy 2 num den (-exponent)).1 : ℚ) /
        (scaleBy 2 num den (-exponent)).2 = mantissa := by
      rw [ratio_scaleBy, hvalue, mul_assoc, Nat.cast_ofNat, ← zpow_add₀ (by norm_num),
        add_neg_cancel, zpow_zero, mul_one]
    rw [ofFraction_of_pos negative hnum, hplace,
      roundDiv_eq_of_ratio_eq (scaleBy_den_pos Nat.two_pos _ _ hden) hmantissaEq,
      ofMantissa_of_canonical negative canonical]

end Ratio

/-! ## Signs -/

theorem neg_ofMantissa (negative : Bool) (mantissa : Nat) (exponent : Int) :
    (ofMantissa negative mantissa exponent).neg = ofMantissa (!negative) mantissa exponent := by
  unfold ofMantissa
  split
  · rfl
  split <;> rfl

/-- The nearest double has the sign that it is asked for. -/
theorem neg_ofFraction (negative : Bool) (num den : Nat) :
    (ofFraction negative num den).neg = ofFraction (!negative) num den := by
  simp only [ofFraction]
  split
  · rfl
  · exact neg_ofMantissa _ _ _

theorem isNegative_ofMantissa (negative : Bool) (mantissa : Nat) (exponent : Int) :
    (ofMantissa negative mantissa exponent).isNegative = negative := by
  unfold ofMantissa
  split
  · rfl
  split <;> rfl

theorem isNegative_ofFraction (negative : Bool) (num den : Nat) :
    (ofFraction negative num den).isNegative = negative := by
  simp only [ofFraction]
  split
  · rfl
  · exact isNegative_ofMantissa _ _ _

@[simp] theorem isFinite_neg (x : Double) : x.neg.isFinite = x.isFinite := by
  cases x <;> rfl

/-! ## Numbers -/

theorem ne_nan_of_isFinite {x : Double} (hfinite : x.isFinite = true) : x ≠ .nan := by
  rintro rfl
  exact absurd hfinite Bool.false_ne_true

/-- What is rounded is a number. -/
theorem ofMantissa_ne_nan (negative : Bool) (mantissa : Nat) (exponent : Int) :
    ofMantissa negative mantissa exponent ≠ .nan := by
  unfold ofMantissa
  split
  · exact nofun
  split <;> exact nofun

theorem ofFraction_ne_nan (negative : Bool) (num den : Nat) :
    ofFraction negative num den ≠ .nan := by
  simp only [ofFraction]
  split
  · exact nofun
  · exact ofMantissa_ne_nan _ _ _

theorem isInfinite_eq_not_isFinite {x : Double} (hx : x ≠ .nan) :
    x.isInfinite = !x.isFinite := by
  cases x with
  | nan => exact absurd rfl hx
  | inf negative | finite negative mantissa exponent canonical => rfl

end SciCalc.Double
