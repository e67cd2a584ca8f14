import Mathlib.Analysis.Complex.ExponentialBounds
import SciCalc.Double.Elementary
import SciCalc.Proofs.Double.Nearest
import SciCalc.Proofs.Double.WholeNumbers
import SciCalc.Proofs.Enclosure.Logarithm

/-! # Decimal logarithms of doubles

The decimal logarithm of a double is rounded from a number that is hardly off the real logarithm, and
for the number one from zero itself. So it is a finite double, and it is off by little more than
the rounding.
-/

namespace SciCalc.Double

/-- No double takes many factors two. -/
theorem factors_le {mantissa : Nat} {exponent : Int} (canonical : IsCanonical mantissa exponent)
    (hmantissa : 0 < mantissa) : (exponent + Enclosure.width mantissa).natAbs ≤ 1100 := by
  obtain ⟨hbound, hleast, hgreatest, -⟩ := canonical
  have hlog : Nat.log2 mantissa < 53 := (Nat.log2_lt hmantissa.ne').mpr hbound
  have hwidth : Enclosure.width mantissa ≤ Nat.log2 mantissa + 1 := by
    unfold Enclosure.width
    split <;> omega
  have hleast' : -1074 ≤ exponent := hleast
  have hgreatest' : exponent ≤ 971 := hgreatest
  omega

/-- Doubles lie between these powers of ten. -/
theorem toRat_between {x : Double} (hpos : 0 < x.toRat) :
    (10 : ℚ) ^ (-324 : Int) ≤ x.toRat ∧ x.toRat ≤ (10 : ℚ) ^ (309 : Int) := by
  have hsize := abs_of_pos hpos
  constructor
  · exact hsize ▸ zpow_le_abs_toRat hpos.ne'
  · exact hsize ▸ (abs_toRat_lt (isFinite_of_toRat_ne_zero hpos.ne')).le

theorem logb_ten_zpow (n : ℤ) : Real.logb 10 ((10 : ℝ) ^ n) = n := by
  have hlog : Real.log 10 ≠ 0 := Real.log_ne_zero_of_pos_of_ne_one (by norm_num) (by norm_num)
  rw [Real.logb, Real.log_zpow, mul_div_cancel_right₀ _ hlog]

/-- Rational numbers are compared with powers of ten by their logarithms. -/
theorem le_logb_of_zpow_le {q : ℚ} {n : ℤ} (hle : (10 : ℚ) ^ n ≤ q) : (n : ℝ) ≤ Real.logb 10 q := by
  rw [← logb_ten_zpow]
  refine Real.logb_le_logb_of_le (by norm_num) (by positivity) ?_
  have hcast : (((10 : ℚ) ^ n : ℚ) : ℝ) ≤ q := Rat.cast_le.mpr hle
  rwa [Rat.cast_zpow, Rat.cast_ofNat] at hcast

theorem logb_le_of_le_zpow {q : ℚ} {n : ℤ} (hpos : 0 < q) (hle : q ≤ (10 : ℚ) ^ n) :
    Real.logb 10 q ≤ n := by
  rw [← logb_ten_zpow]
  refine Real.logb_le_logb_of_le (by norm_num) (by exact_mod_cast hpos) ?_
  have hcast : (q : ℝ) ≤ (((10 : ℚ) ^ n : ℚ) : ℝ) := Rat.cast_le.mpr hle
  rwa [Rat.cast_zpow, Rat.cast_ofNat] at hcast

theorem abs_logb_le {x : Double} (hpos : 0 < x.toRat) : |Real.logb 10 x.toRat| ≤ 324 := by
  obtain ⟨hlower, hupper⟩ := toRat_between hpos
  have hlogLower := le_logb_of_zpow_le hlower
  have hlogUpper := logb_le_of_le_zpow hpos hupper
  push_cast at hlogLower hlogUpper
  rw [abs_le]
  constructor <;> linarith

/-- Both the middles and the lower ends of the enclosures are hardly off the logarithm. -/
theorem exists_ends {bits : Nat} (hbits : 93 ≤ bits) {mantissa : Nat} (hmantissa : 0 < mantissa)
    {exponent : Int} (hfactors : (exponent + Enclosure.width mantissa).natAbs ≤ 1100) :
    ∃ x, Enclosure.log10? bits mantissa exponent = some x ∧
      |((x.middle * (2 : ℚ) ^ x.exponent : ℚ) : ℝ) -
        Real.logb 10 (mantissa * (2 : ℝ) ^ exponent)| ≤ (2 : ℝ) ^ (-59 : Int) ∧
      |(((x.middle - x.error : Int) * (2 : ℚ) ^ x.exponent : ℚ) : ℝ) -
        Real.logb 10 (mantissa * (2 : ℝ) ^ exponent)| ≤ (2 : ℝ) ^ (-59 : Int) := by
  obtain ⟨x, hx, hcontains, places, hplaces, hnarrow⟩ :=
    Enclosure.exists_log10?_contains hbits hmantissa hfactors
  refine ⟨x, hx, ?_⟩
  have herror : (x.error : ℝ) * (2 : ℝ) ^ x.exponent ≤ (2 : ℝ) ^ (-60 : Int) := by
    have hcast : (2 : ℝ) ^ 60 * x.error ≤ (2 : ℝ) ^ places := by exact_mod_cast hnarrow
    rw [hplaces, zpow_neg, zpow_natCast, ← div_eq_mul_inv, div_le_iff₀ (by positivity), zpow_neg,
      inv_mul_eq_div, le_div_iff₀ (by positivity), mul_comm]
    exact hcast
  have hdouble : (2 : ℝ) ^ (-59 : Int) = 2 * (2 : ℝ) ^ (-60 : Int) := by norm_num
  have hpositive : (0 : ℝ) < (2 : ℝ) ^ (-60 : Int) := by positivity
  have hnonneg : 0 ≤ (x.error : ℝ) * (2 : ℝ) ^ x.exponent := by positivity
  rw [Enclosure.Contains, abs_le] at hcontains
  push_cast
  rw [abs_le, abs_le, hdouble, sub_mul]
  refine ⟨⟨?_, ?_⟩, ?_, ?_⟩ <;> linarith [hcontains.1, hcontains.2]

theorem log10_one : (ofInt 1).log10 = zero false := by decide +kernel

theorem eq_ofInt_one {x : Double} (hone : x.toRat = 1) : x = ofInt 1 := by
  refine eq_ofInt_of_toInt? (toInt?_eq_some_iff.mpr ⟨?_, by rw [hone, Int.cast_one]⟩) one_ne_zero
  exact isFinite_of_toRat_ne_zero (by rw [hone]; exact one_ne_zero)

/-- Unless the number is one, its logarithm is rounded from the middle or the lower end of an
enclosure. -/
theorem exists_log10_eq_ofScaled {mantissa : Nat} {exponent : Int}
    (canonical : IsCanonical mantissa exponent) (hmantissa : 0 < mantissa) :
    ∃ middle place,
      (finite false mantissa exponent canonical).log10 = ofScaled middle place ∧
      |((middle * (2 : ℚ) ^ place : ℚ) : ℝ) - Real.logb 10 (mantissa * (2 : ℝ) ^ exponent)| ≤
        (2 : ℝ) ^ (-59 : Int) := by
  obtain ⟨middle, place, hnear, hsettled⟩ := Enclosure.exists_settleFrom_of_ends 53 40
    (P := fun middle place => |((middle * (2 : ℚ) ^ place : ℚ) : ℝ) -
      Real.logb 10 (mantissa * (2 : ℝ) ^ exponent)| ≤ (2 : ℝ) ^ (-59 : Int))
    (fun width hwidth =>
      have ⟨x, hx, hmiddle, hlow⟩ := exists_ends hwidth hmantissa (factors_le canonical hmantissa)
      ⟨x, hx, hmiddle, .inl hlow⟩)
    ofScaled nan 14
  refine ⟨middle, place, ?_, hnear⟩
  rw [log10, if_neg (by simp [hmantissa.ne'])]
  exact hsettled

/-- A number that is hardly off the logarithm of a double is within the range. -/
theorem isNearest_ofScaled_of_near {mantissa place : Int} {log : ℝ} (hlog : |log| ≤ 324)
    (hnear : |((mantissa * (2 : ℚ) ^ place : ℚ) : ℝ) - log| ≤ (2 : ℝ) ^ (-59 : Int)) :
    IsNearest (mantissa * (2 : ℚ) ^ place) (ofScaled mantissa place) := by
  refine isNearest_ofScaled (isWithin_ofScaled (show leastExponent ≤ 9 by decide) (by decide) ?_).1
  have hsize : |((mantissa * (2 : ℚ) ^ place : ℚ) : ℝ)| ≤ (((2 : ℚ) ^ (9 : Int) : ℚ) : ℝ) := by
    have htriangle := abs_sub_abs_le_abs_sub ((mantissa * (2 : ℚ) ^ place : ℚ) : ℝ) log
    have hsmall : (2 : ℝ) ^ (-59 : Int) ≤ 1 := by norm_num
    have hbits : (((2 : ℚ) ^ (9 : Int) : ℚ) : ℝ) = 512 := by norm_num
    linarith
  rwa [← Rat.cast_abs, Rat.cast_le, abs_mul, abs_of_pos (by positivity : (0 : ℚ) < 2 ^ place)]
    at hsize

/-- What the decimal logarithm is rounded from. -/
theorem exists_isNearest_log10 {x : Double} (hpos : 0 < x.toRat) :
    ∃ y : ℚ, IsNearest y x.log10 ∧ |(y : ℝ) - Real.logb 10 x.toRat| ≤ (2 : ℝ) ^ (-59 : Int) ∧
      (x.toRat = 1 → y = 0) := by
  by_cases hone : x.toRat = 1
  · refine ⟨0, ?_, ?_, fun _ => rfl⟩
    · rw [eq_ofInt_one hone, log10_one]
      exact isNearest_zero (by rw [abs_zero]; positivity) false
    · rw [hone, Rat.cast_one, Real.logb_one, Rat.cast_zero, sub_zero, abs_zero]
      positivity
  have hbound := abs_logb_le hpos
  obtain ⟨mantissa, exponent, canonical, hmantissa, rfl⟩ := exists_finite_of_toRat_pos hpos
  obtain ⟨middle, place, hlog, hnear⟩ := exists_log10_eq_ofScaled canonical hmantissa
  have hvalue : (((finite false mantissa exponent canonical).toRat : ℚ) : ℝ) =
      mantissa * (2 : ℝ) ^ exponent := by
    rw [toRat_finite, if_neg Bool.false_ne_true]
    push_cast
    rfl
  rw [hvalue] at hbound ⊢
  refine ⟨middle * (2 : ℚ) ^ place, ?_, hnear, fun h => absurd h hone⟩
  rw [hlog]
  exact isNearest_ofScaled_of_near hbound hnear

end SciCalc.Double
