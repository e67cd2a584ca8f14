import SciCalc.Proofs.Display.Negation
import SciCalc.Proofs.Display.Rounding

/-! # Every number has a display text

What is displayed without a power of ten is of a moderate size. Its ten significant digits are read
as a finite double, and the rounding for the display gives this double or, if the last of the digits
stands left of the ones, an integer. So nothing that the rounding needs can be missing.
-/

namespace SciCalc

namespace Settings

theorem largeThreshold_toRat : largeThreshold.toRat = (10 : ℚ) ^ 10 := by decide +kernel

/-- The threshold is the double nearest to `10 ^ -6`, which is hardly less. -/
theorem exponentThreshold_between :
    (10 : ℚ) ^ (-6 : ℤ) * (1 - (2 : ℚ) ^ (-53 : Int)) ≤ exponentThreshold.toRat ∧
      exponentThreshold.toRat ≤ (10 : ℚ) ^ (-6 : ℤ) := by
  decide +kernel

theorem smallThreshold_le : smallThreshold.toRat ≤ exponentThreshold.toRat := by decide +kernel

end Settings

namespace Display

open Settings

/-- Numbers of a size that is displayed without a power of ten. -/
structure IsPlain (x : Double) : Prop where
  isFinite : x.isFinite = true
  lower : (2 : ℚ) ^ (-20 : Int) ≤ |x.toRat|
  upper : |x.toRat| < (10 : ℚ) ^ (10 : Int)

variable {x : Double}

section Plain

variable (hplain : IsPlain x)

include hplain

theorem IsPlain.toRat_ne_zero : x.toRat ≠ 0 := by
  intro hzero
  have hlower := hplain.lower
  rw [hzero, abs_zero] at hlower
  exact absurd hlower (not_le.mpr (by positivity))

theorem IsPlain.log_between : -7 ≤ Int.log 10 |x.toRat| ∧ Int.log 10 |x.toRat| < 10 := by
  have hpos := abs_pos.mpr hplain.toRat_ne_zero
  refine ⟨(Int.zpow_le_iff_le_log (by decide) hpos).mp ?_,
    (Int.lt_zpow_iff_log_lt (by decide) hpos).mp hplain.upper⟩
  refine le_trans ?_ hplain.lower
  norm_num

/-- The ten significant digits are within the range. -/
theorem isFinite_ofDouble : (Decimal.ofDouble 10 x).toDouble.isFinite = true := by
  obtain ⟨-, hsize, -⟩ :=
    Decimal.ofDouble_spec (show 0 < 10 by decide) hplain.isFinite hplain.toRat_ne_zero
  refine Decimal.isFinite_toDouble (y := largeThreshold) rfl ?_
  calc (Decimal.ofDouble 10 x).size
      ≤ (10 : ℚ) ^ (Int.log 10 |x.toRat| + 1) := by
        rw [hsize]
        exact (significant_between (abs_pos.mpr hplain.toRat_ne_zero) 10 (by decide)).2
    _ ≤ (10 : ℚ) ^ (10 : Int) :=
        zpow_le_zpow_right₀ (by norm_num) (Int.add_one_le_iff.mpr hplain.log_between.2)
    _ = largeThreshold.toRat := largeThreshold_toRat.symm

/-- Wherever the first digit is said to stand, rounding gives the double that the ten significant
digits are read as, or the integer that they spell. -/
theorem roundAt_cases {exponent : ℤ} (hnames : NamesFirstDigit 10 x.toRat exponent) :
    roundAt exponent x 10 = .ok (.float (Decimal.ofDouble 10 x).toDouble) ∨
      ∃ n : ℤ, roundAt exponent x 10 = .ok (.int n) ∧ (n : ℚ) = significant 10 x.toRat := by
  have hzero := hplain.toRat_ne_zero
  have hrange := isFinite_ofDouble hplain
  have hexponent : -7 ≤ exponent := by
    have hlower := hplain.log_between.1
    rcases hnames with rfl | ⟨rfl, -⟩ <;> omega
  rcases lt_or_ge exponent (10 : ℕ) with hless | hmore
  · exact .inl (roundAt_of_nonneg hplain.isFinite hzero (by decide) (by decide) hrange hnames hless
      (by omega))
  · exact .inr (roundAt_of_neg hplain.isFinite hzero (by decide) (by decide) hrange hnames hmore)

/-- Rounding to ten digits gives an integer or a finite double. -/
theorem exists_roundDouble :
    ∃ number, roundDouble x 10 = .ok number ∧ ∀ y, number = .float y → y.isFinite = true := by
  obtain ⟨exponent, hmagnitude, hnames⟩ :=
    exists_magnitude hplain.toRat_ne_zero (show 0 < 10 by decide) (by decide)
  rw [roundDouble, hmagnitude, bind_ok]
  rcases roundAt_cases hplain hnames with hfloat | ⟨n, hint, -⟩
  · refine ⟨_, hfloat, ?_⟩
    rintro y hy
    obtain rfl := Number.float.inj hy
    exact isFinite_ofDouble hplain
  · refine ⟨_, hint, ?_⟩
    rintro y hy
    cases hy

end Plain

/-- What is displayed without a power of ten is of such a size. -/
theorem isPlain_of_thresholds (hfinite : x.isFinite = true)
    (hlarge : largeThreshold.isAtMost x.abs = false)
    (hsmall : x.abs.isLess exponentThreshold = false) : IsPlain x := by
  have hfiniteAbs : x.abs.isFinite = true := by rw [Double.isFinite_abs, hfinite]
  rw [← Bool.not_eq_true, Double.isAtMost_iff rfl hfiniteAbs, Double.toRat_abs, not_le,
    largeThreshold_toRat] at hlarge
  rw [← Bool.not_eq_true, Double.isLess_iff hfiniteAbs rfl, Double.toRat_abs, not_lt] at hsmall
  refine ⟨hfinite, ?_, by exact_mod_cast hlarge⟩
  calc (2 : ℚ) ^ (-20 : Int) ≤ (10 : ℚ) ^ (-6 : ℤ) * (1 - (2 : ℚ) ^ (-53 : Int)) := by norm_num
    _ ≤ exponentThreshold.toRat := exponentThreshold_between.1
    _ ≤ |x.toRat| := hsmall

/-- What is displayed without a power of ten can be rounded for it. -/
theorem exists_rounded (hnan : ¬x.isNan = true) (hinfinite : ¬x.isInfinite = true)
    (hplain : ¬(largeThreshold.isAtMost x.abs || x.abs.isLess smallThreshold ||
      x.abs.isLess exponentThreshold) = true) :
    ∃ number, roundDouble x displayDigits = .ok number ∧
      ∀ y, number = .float y → y.isFinite = true := by
  have hfinite : x.isFinite = true := by
    cases x with
    | nan => exact absurd rfl hnan
    | inf negative => exact absurd rfl hinfinite
    | finite negative mantissa exponent canonical => rfl
  simp only [Bool.or_eq_true, not_or, Bool.not_eq_true] at hplain
  obtain ⟨⟨hlarge, -⟩, hsmall⟩ := hplain
  exact exists_roundDouble (isPlain_of_thresholds hfinite hlarge hsmall)

/-- Every number has a display text. -/
theorem exists_formatDouble (x : Double) : ∃ text, formatDouble x = .ok text := by
  simp only [formatDouble, format, Number.toDouble?]
  split
  · exact ⟨_, rfl⟩
  next hnan =>
  split
  · exact ⟨_, rfl⟩
  next hinfinite =>
  split
  · exact ⟨_, rfl⟩
  next hzero =>
  split
  · exact ⟨_, rfl⟩
  next hplain =>
    obtain ⟨number, hnumber, -⟩ := exists_rounded hnan hinfinite hplain
    have hrounded : roundToPrecision (.float x) Settings.displayDigits = .ok number := by
      simp only [roundToPrecision, Number.toDouble?, hzero, Bool.false_eq_true, if_false]
      exact hnumber
    rw [hrounded]
    exact ⟨_, rfl⟩

end Display

end SciCalc
