import SciCalc.Proofs.Decimal.Bounds
import SciCalc.Proofs.Double.Overflow

/-! # Significant digits of doubles

A double rounded to significant digits is a decimal of as many digits that stands for the rounded
value, and a decimal that lies within the range is read as a nearest double.
-/

namespace SciCalc

theorem significantPlace_neg (count : ℕ) (q : ℚ) :
    significantPlace count (-q) = significantPlace count q := by
  rw [significantPlace, significantPlace, abs_neg]

theorem significant_neg (count : ℕ) (q : ℚ) : significant count (-q) = -significant count q := by
  rw [significant, significant, significantPlace_neg, neg_div, nearestEven_neg, Int.cast_neg,
    neg_mul]

theorem significant_zero (count : ℕ) : significant count 0 = 0 := by
  have hzero : nearestEven 0 = 0 := by exact_mod_cast nearestEven_intCast 0
  rw [significant, zero_div, hzero, Int.cast_zero, zero_mul]

section Positive

variable {q : ℚ} (hq : 0 < q) (count : ℕ)

include hq

theorem significantPlace_of_pos : significantPlace count q = Int.log 10 q + 1 - count := by
  rw [significantPlace, abs_of_pos hq]

/-- In units of the last significant digit, a number has as many digits before the point. -/
theorem scaled_between :
    (10 : ℚ) ^ ((count : ℤ) - 1) ≤ q / (10 : ℚ) ^ significantPlace count q ∧
      q / (10 : ℚ) ^ significantPlace count q < (10 : ℚ) ^ (count : ℤ) := by
  have hlower := Int.zpow_log_le_self (b := 10) (by norm_num) hq
  have hupper := Int.lt_zpow_succ_log_self (b := 10) (by norm_num) q
  rw [Nat.cast_ofNat] at hlower hupper
  rw [le_div_iff₀ (by positivity), div_lt_iff₀ (by positivity), significantPlace_of_pos hq,
    ← zpow_add₀ (by norm_num), ← zpow_add₀ (by norm_num)]
  rw [show (count : ℤ) - 1 + (Int.log 10 q + 1 - count) = Int.log 10 q by ring,
    show (count : ℤ) + (Int.log 10 q + 1 - count) = Int.log 10 q + 1 by ring]
  exact ⟨hlower, hupper⟩

/-- Rounded to an integer in these units, a number has as many digits or is the next power of ten. -/
theorem nearestEven_scaled_between (hcount : 0 < count) :
    10 ^ (count - 1) ≤ nearestEven (q / (10 : ℚ) ^ significantPlace count q) ∧
      nearestEven (q / (10 : ℚ) ^ significantPlace count q) ≤ 10 ^ count := by
  obtain ⟨hlower, hupper⟩ := scaled_between hq count
  obtain ⟨fewer, rfl⟩ := Nat.exists_eq_succ_of_ne_zero hcount.ne'
  rw [Nat.cast_succ, add_sub_cancel_right, zpow_natCast] at hlower
  rw [zpow_natCast] at hupper
  exact ⟨le_nearestEven (by push_cast; exact hlower), nearestEven_le (by push_cast; exact hupper.le)⟩

/-- Rounding to significant digits stays within the powers of ten around a number. -/
theorem significant_between (hcount : 0 < count) :
    (10 : ℚ) ^ Int.log 10 q ≤ significant count q ∧
      significant count q ≤ (10 : ℚ) ^ (Int.log 10 q + 1) := by
  obtain ⟨hlower, hupper⟩ := nearestEven_scaled_between hq count hcount
  obtain ⟨fewer, rfl⟩ := Nat.exists_eq_succ_of_ne_zero hcount.ne'
  have hlog : Int.log 10 q = fewer + significantPlace (fewer + 1) q := by
    rw [significantPlace_of_pos hq]
    push_cast
    ring
  have hlower' : (10 : ℚ) ^ fewer ≤
      nearestEven (q / (10 : ℚ) ^ significantPlace (fewer + 1) q) := by exact_mod_cast hlower
  have hupper' : (nearestEven (q / (10 : ℚ) ^ significantPlace (fewer + 1) q) : ℚ) ≤
      (10 : ℚ) ^ (fewer + 1) := by exact_mod_cast hupper
  rw [significant, hlog, add_right_comm, zpow_add₀ (by norm_num), zpow_add₀ (by norm_num),
    zpow_natCast, ← Nat.cast_succ, zpow_natCast]
  exact ⟨mul_le_mul_of_nonneg_right hlower' (by positivity),
    mul_le_mul_of_nonneg_right hupper' (by positivity)⟩

/-- What is less than half a unit above a number of so many digits is rounded to at most this
number. -/
theorem significant_le (n place : ℤ) (hcount : 0 < count) (hlower : 10 ^ (count - 1) ≤ n)
    (hupper : n < 10 ^ count) (hless : q < (n + 1 / 2) * (10 : ℚ) ^ place) :
    significant count q ≤ n * (10 : ℚ) ^ place := by
  have hunit : (0 : ℚ) < (10 : ℚ) ^ place := by positivity
  have hcast : (n : ℚ) + 1 ≤ (10 : ℚ) ^ count := by exact_mod_cast hupper
  have hlog : Int.log 10 q < count + place := by
    refine (Int.lt_zpow_iff_log_lt (by decide) hq).mp (hless.trans_le ?_)
    rw [zpow_add₀ (by norm_num), zpow_natCast]
    exact mul_le_mul_of_nonneg_right (by push_cast; linarith) hunit.le
  rcases (Int.le_sub_one_of_lt hlog).lt_or_eq with hsmaller | hequal
  · obtain ⟨fewer, rfl⟩ := Nat.exists_eq_succ_of_ne_zero hcount.ne'
    calc significant (fewer + 1) q ≤ (10 : ℚ) ^ (Int.log 10 q + 1) :=
          (significant_between hq _ hcount).2
      _ ≤ (10 : ℚ) ^ ((fewer : ℤ) + place) :=
          zpow_le_zpow_right₀ (by norm_num) (by push_cast at hsmaller; omega)
      _ = (10 : ℚ) ^ fewer * (10 : ℚ) ^ place := by rw [zpow_add₀ (by norm_num), zpow_natCast]
      _ ≤ n * (10 : ℚ) ^ place :=
          mul_le_mul_of_nonneg_right (by exact_mod_cast hlower) hunit.le
  · have hplace : significantPlace count q = place := by
      rw [significantPlace_of_pos hq, hequal]
      ring
    rw [significant, hplace]
    have hscaled : q / (10 : ℚ) ^ place < n + 1 / 2 := (div_lt_iff₀ hunit).mpr hless
    have herror := (abs_le.mp (abs_nearestEven_sub_le (q / (10 : ℚ) ^ place))).2
    have hrounded : nearestEven (q / (10 : ℚ) ^ place) < n + 1 := by
      have hcast : (nearestEven (q / (10 : ℚ) ^ place) : ℚ) < (n + 1 : ℤ) := by
        push_cast
        linarith
      exact_mod_cast hcast
    exact mul_le_mul_of_nonneg_right (by exact_mod_cast Int.le_of_lt_add_one hrounded) hunit.le

/-- What is less than half a unit below a number of so many digits is rounded to at least this
number. -/
theorem le_significant (n place : ℤ) (hcount : 0 < count) (hlower : 10 ^ (count - 1) < n)
    (hupper : n ≤ 10 ^ count) (hless : (n - 1 / 2) * (10 : ℚ) ^ place < q) :
    n * (10 : ℚ) ^ place ≤ significant count q := by
  have hunit : (0 : ℚ) < (10 : ℚ) ^ place := by positivity
  obtain ⟨fewer, rfl⟩ := Nat.exists_eq_succ_of_ne_zero hcount.ne'
  have hcast : (10 : ℚ) ^ fewer + 1 ≤ n := by exact_mod_cast hlower
  have hlog : fewer + place ≤ Int.log 10 q := by
    refine (Int.zpow_le_iff_le_log (by decide) hq).mp (le_trans ?_ hless.le)
    rw [zpow_add₀ (by norm_num), zpow_natCast]
    exact mul_le_mul_of_nonneg_right (by push_cast; linarith) hunit.le
  rcases hlog.lt_or_eq with hlarger | hequal
  · calc (n : ℚ) * (10 : ℚ) ^ place ≤ (10 : ℚ) ^ (fewer + 1) * (10 : ℚ) ^ place :=
          mul_le_mul_of_nonneg_right (by exact_mod_cast hupper) hunit.le
      _ = (10 : ℚ) ^ (((fewer + 1 : ℕ) : ℤ) + place) := by
          rw [zpow_add₀ (by norm_num), zpow_natCast]
      _ ≤ (10 : ℚ) ^ Int.log 10 q := zpow_le_zpow_right₀ (by norm_num) (by push_cast; omega)
      _ ≤ significant (fewer + 1) q := (significant_between hq _ hcount).1
  · have hplace : significantPlace (fewer + 1) q = place := by
      rw [significantPlace_of_pos hq, ← hequal]
      push_cast
      ring
    rw [significant, hplace]
    have hscaled : n - 1 / 2 < q / (10 : ℚ) ^ place := (lt_div_iff₀ hunit).mpr hless
    have herror := (abs_le.mp (abs_nearestEven_sub_le (q / (10 : ℚ) ^ place))).1
    have hrounded : n - 1 < nearestEven (q / (10 : ℚ) ^ place) := by
      have hcast : ((n - 1 : ℤ) : ℚ) < nearestEven (q / (10 : ℚ) ^ place) := by
        push_cast
        linarith
      exact_mod_cast hcast
    exact mul_le_mul_of_nonneg_right (by exact_mod_cast Int.le_of_sub_one_lt hrounded) hunit.le

end Positive

theorem abs_significant {count : ℕ} (hcount : 0 < count) (q : ℚ) :
    |significant count q| = significant count |q| := by
  have hnonneg : 0 ≤ significant count |q| := by
    rcases (abs_nonneg q).eq_or_lt with hzero | hpos
    · rw [← hzero, significant_zero]
    · exact le_trans (by positivity) (significant_between hpos count hcount).1
  rcases abs_cases q with ⟨habs, -⟩ | ⟨habs, -⟩
  · rw [habs] at hnonneg ⊢
    exact abs_of_nonneg hnonneg
  · rw [habs, significant_neg] at hnonneg ⊢
    exact abs_of_nonpos (neg_nonneg.mp hnonneg)

namespace Decimal

/-! ## Values -/

theorem toRat_eq (d : Decimal) : d.toRat = if d.negative then -d.size else d.size := by
  have hratio := ratio_scaleBy 10 d.digits 1 d.exponent
  rw [Nat.cast_one, div_one, Nat.cast_ofNat] at hratio
  simp only [toRat, scaleTen_eq_scaleBy, Rat.mkRat_eq_div, size]
  split
  · push_cast
    rw [neg_div, hratio]
  · rw [Int.cast_natCast, hratio]

theorem size_nonneg (d : Decimal) : 0 ≤ d.size := by
  rw [size]
  positivity

theorem abs_toRat (d : Decimal) : |d.toRat| = d.size := by
  rw [toRat_eq]
  split
  · rw [abs_neg, abs_of_nonneg d.size_nonneg]
  · exact abs_of_nonneg d.size_nonneg

theorem negative_eq {d : Decimal} (hdigits : d.digits ≠ 0) :
    d.negative = decide (d.toRat < 0) := by
  have hpos : 0 < d.size := by
    rw [size]
    have hnum : 0 < d.digits := Nat.pos_of_ne_zero hdigits
    positivity
  rw [toRat_eq]
  cases d.negative with
  | true => simpa using hpos
  | false => simpa using hpos.le

/-- A decimal within the range is read as a nearest double. -/
theorem isNearest_toDouble {d : Decimal} (hfinite : d.toDouble.isFinite = true) :
    Double.IsNearest d.toRat d.toDouble := by
  have hsize := d.abs_toRat
  simp only [toDouble] at hfinite ⊢
  split
  next hzero =>
    have hnone : d.size = 0 := by rw [size, hzero, Nat.cast_zero, zero_mul]
    exact Double.isNearest_zero (by rw [hsize, hnone]; positivity) _
  next hdigits =>
    rw [if_neg hdigits] at hfinite
    split
    next hlarge =>
      rw [if_pos hlarge] at hfinite
      exact absurd hfinite Bool.false_ne_true
    next hlarge =>
      rw [if_neg hlarge] at hfinite
      split
      next hsmall =>
        refine Double.isNearest_zero ?_ _
        have hless : d.size < (10 : ℚ) ^ (-((324 : ℕ) : ℤ)) := by
          by_contra hnot
          exact absurd (lt_decimalLength_add hdigits (not_lt.mp hnot)) (not_lt.mpr hsmall)
        have hhalf := hless.trans Double.least_between.1
        rw [Double.least_eq_two_mul] at hhalf
        rw [hsize]
        linarith
      next hsmall =>
        rw [if_neg hsmall, scaleTen_eq_scaleBy] at hfinite
        rw [scaleTen_eq_scaleBy]
        have hnearest := Double.isNearest_ofFraction d.negative
          (scaleBy_den_pos (by decide) _ _ Nat.one_pos) hfinite
        rw [ratio_scaleBy, Nat.cast_one, div_one, Nat.cast_ofNat] at hnearest
        rwa [toRat_eq]

/-- A decimal that is no larger than some finite double is read as a finite double. -/
theorem isFinite_toDouble {d : Decimal} {y : Double} (hy : y.isFinite = true)
    (hle : d.size ≤ y.toRat) : d.toDouble.isFinite = true := by
  simp only [toDouble]
  split
  · rfl
  next hdigits =>
    have hless : d.size < (10 : ℚ) ^ (309 : ℤ) :=
      hle.trans_lt ((le_abs_self _).trans_lt (Double.abs_toRat_lt hy))
    rw [if_neg (not_lt.mpr (decimalLength_add_le hdigits hless))]
    split
    · rfl
    · rw [scaleTen_eq_scaleBy]
      refine Double.isFinite_ofFraction _ (scaleBy_den_pos (by decide) _ _ Nat.one_pos) hy ?_
      rwa [ratio_scaleBy, Nat.cast_one, div_one, Nat.cast_ofNat]

/-- A decimal of a finite double lies below this power of ten. -/
theorem size_lt_of_isFinite {d : Decimal} (hdigits : d.digits ≠ 0)
    (hfinite : d.toDouble.isFinite = true) : d.size < (10 : ℚ) ^ (309 : ℤ) := by
  by_contra hlarge
  have hbeyond := lt_decimalLength_add hdigits (not_lt.mp hlarge)
  simp only [toDouble, hdigits, if_false, if_pos hbeyond] at hfinite
  exact absurd hfinite Bool.false_ne_true

/-- Any fraction of the same value is rounded to the double that a decimal is read as. -/
theorem toDouble_eq_ofFraction {d : Decimal} (hdigits : d.digits ≠ 0)
    (hsmall : d.size < (10 : ℚ) ^ (309 : ℤ)) (hlarge : (10 : ℚ) ^ (-324 : ℤ) ≤ d.size)
    {num den : ℕ} (hden : 0 < den) (hratio : (num : ℚ) / den = d.size) :
    d.toDouble = Double.ofFraction d.negative num den := by
  have hupper := decimalLength_add_le hdigits hsmall
  have hlower := lt_decimalLength_add hdigits hlarge
  simp only [toDouble, hdigits, if_false, not_lt.mpr hupper, not_le.mpr hlower, scaleTen_eq_scaleBy]
  refine Double.ofFraction_congr _ (scaleBy_den_pos (by decide) _ _ Nat.one_pos) hden ?_
  rw [ratio_scaleBy, Nat.cast_one, div_one, hratio]
  rfl

/-- Reading a decimal is rounding its value, unless it is so large or so small that this is not
computed. -/
theorem toDouble_eq_ofRat {d : Decimal} (hlarge : (10 : ℚ) ^ (-324 : ℤ) ≤ |d.toRat|)
    (hsmall : |d.toRat| < (10 : ℚ) ^ (309 : ℤ)) (negativeZero : Bool) :
    d.toDouble = Double.ofRat negativeZero d.toRat := by
  have hpos : 0 < |d.toRat| := lt_of_lt_of_le (by positivity) hlarge
  have hdigits : d.digits ≠ 0 := by
    intro hnone
    rw [abs_toRat, size, hnone, Nat.cast_zero, zero_mul] at hpos
    exact lt_irrefl 0 hpos
  rw [Double.ofRat, if_neg (mt Rat.num_eq_zero.mp (abs_pos.mp hpos)),
    toDouble_eq_ofFraction hdigits (d.abs_toRat ▸ hsmall) (d.abs_toRat ▸ hlarge) d.toRat.den_pos
      (by rw [← Double.abs_eq_ratio, abs_toRat]), negative_eq hdigits]
  simp only [Rat.num_neg]

/-! ## Rounding -/

/-- A positive fraction is rounded to as many digits as are wanted, and to the right value. -/
theorem ofFraction_spec {count : ℕ} (hcount : 0 < count) (negative : Bool) {num den : ℕ}
    (hnum : 0 < num) (hden : 0 < den) :
    (ofFraction count negative num den).size = significant count ((num : ℚ) / den) ∧
      10 ^ (count - 1) ≤ (ofFraction count negative num den).digits ∧
        (ofFraction count negative num den).digits < 10 ^ count := by
  have hpos : (0 : ℚ) < (num : ℚ) / den := by positivity
  have hplace := significantPlace_of_pos hpos count
  obtain ⟨hlower, hupper⟩ := nearestEven_scaled_between hpos count hcount
  have hdigits := roundDiv_scaleBy (show 0 < 10 by decide) num hden
    (significantPlace count ((num : ℚ) / den))
  rw [Nat.cast_ofNat] at hdigits
  simp only [ofFraction, decade_eq_log hnum hden, scaleTen_eq_scaleBy, ← hplace, significant]
  rw [← hdigits] at hlower hupper ⊢
  generalize roundDiv _ _ = digits at hlower hupper ⊢
  obtain ⟨fewer, rfl⟩ := Nat.exists_eq_succ_of_ne_zero hcount.ne'
  have hleast : 10 ^ fewer ≤ digits := by exact_mod_cast hlower
  have hmost : digits ≤ 10 ^ (fewer + 1) := by exact_mod_cast hupper
  split
  next hcarried =>
    -- The digits have become one followed by zeros.
    have hpower : 10 ^ fewer < 10 ^ (fewer + 1) := Nat.pow_lt_pow_right (by decide) (by omega)
    refine ⟨?_, le_rfl, hpower⟩
    simp only [size, hcarried, tenPow, Nat.pow_eq, Nat.succ_sub_one]
    rw [zpow_add_one₀ (by norm_num), Nat.succ_eq_add_one, pow_succ]
    push_cast
    ring
  next hkept =>
    refine ⟨?_, hleast, lt_of_le_of_ne hmost hkept⟩
    rw [size, Int.cast_natCast]

section Double

variable {count : ℕ} (hcount : 0 < count) {x : Double} (hfinite : x.isFinite = true)
  (hzero : x.toRat ≠ 0)

include hcount hfinite hzero

/-- A double is rounded to a decimal of its own sign. -/
theorem ofDouble_spec :
    (ofDouble count x).negative = x.isNegative ∧
      (ofDouble count x).size = significant count |x.toRat| ∧
        10 ^ (count - 1) ≤ (ofDouble count x).digits ∧ (ofDouble count x).digits < 10 ^ count := by
  obtain ⟨hden, hratio⟩ := Double.ratio_magnitude hfinite
  have hnum : 0 < x.magnitude.1 := by
    refine Nat.pos_of_ne_zero fun hnone => ?_
    rw [hnone, Nat.cast_zero, zero_div] at hratio
    exact hzero (abs_eq_zero.mp hratio.symm)
  obtain ⟨hsize, hleast, hmost⟩ := ofFraction_spec hcount x.isNegative hnum hden
  rw [hratio] at hsize
  simp only [ofDouble, hnum.ne', if_false]
  refine ⟨?_, hsize, hleast, hmost⟩
  simp only [ofFraction]
  split <;> rfl

/-- The decimal stands for the double rounded to significant digits. -/
theorem toRat_ofDouble : (ofDouble count x).toRat = significant count x.toRat := by
  obtain ⟨hsign, hsize, -⟩ := ofDouble_spec hcount hfinite hzero
  rw [toRat_eq, hsign, hsize, Double.isNegative_eq hzero]
  split
  next hnegative =>
    rw [abs_of_neg (of_decide_eq_true hnegative), significant_neg, neg_neg]
  next hpositive =>
    rw [abs_of_nonneg (not_lt.mp fun hnegative => hpositive (decide_eq_true hnegative))]

end Double

end Decimal

end SciCalc
