import SciCalc.Display.Rounding
import SciCalc.Proofs.Decimal.Significant
import SciCalc.Proofs.Double.Logarithm

/-! # The place that the decimal logarithm names

The decimal logarithm of a number is rounded before its floor is taken. It is not rounded past an
integer from above, because no number that is not a power of ten has a logarithm so near to one. From
below it can be rounded up to the next integer. Then the number itself is so near to the next power
of ten that this is what its significant digits are rounded to. `NamesFirstDigit` says this of an
exponent, however its logarithm was rounded.
-/

namespace SciCalc

/-! ## Logarithms near integers -/

theorem log_ten_lt : Real.log 10 < 2.8 := by
  have hlog : Real.log 10 ≤ Real.log (2 ^ 4) := Real.log_le_log (by norm_num) (by norm_num)
  rw [Real.log_pow] at hlog
  have htwo := Real.log_two_lt_d9
  push_cast at hlog
  linarith

theorem lt_log_ten : 2 < Real.log 10 := by
  have hlog : Real.log (2 ^ 3) ≤ Real.log 10 := Real.log_le_log (by norm_num) (by norm_num)
  rw [Real.log_pow] at hlog
  have htwo := Real.log_two_gt_d9
  push_cast at hlog
  linarith

theorem log_ten_pos : 0 < Real.log 10 := Real.log_pos (by norm_num)

/-- The logarithm of a number that is a little less than a power of ten is noticeably less. -/
theorem logb_le_sub {q : ℚ} {n : ℤ} (hpos : 0 < q)
    (hle : q ≤ (10 : ℚ) ^ n * (1 - 5 * (10 : ℚ) ^ (-13 : Int))) :
    Real.logb 10 q ≤ n - (2 : ℝ) ^ (-43 : Int) := by
  have hcast : (q : ℝ) ≤ (10 : ℝ) ^ n * (1 - 5 * (10 : ℝ) ^ (-13 : Int)) := by
    have hreal : (q : ℝ) ≤ ((10 ^ n * (1 - 5 * (10 : ℚ) ^ (-13 : Int)) : ℚ) : ℝ) :=
      Rat.cast_le.mpr hle
    push_cast at hreal
    exact hreal
  have hfactor : Real.logb 10 (1 - 5 * (10 : ℝ) ^ (-13 : Int)) ≤ -(2 : ℝ) ^ (-43 : Int) := by
    have hlog := Real.log_le_sub_one_of_pos
      (show (0 : ℝ) < 1 - 5 * (10 : ℝ) ^ (-13 : Int) by norm_num)
    rw [Real.logb, div_le_iff₀ log_ten_pos]
    have hten := log_ten_lt
    norm_num at hlog ⊢
    linarith
  have hmono := Real.logb_le_logb_of_le (by norm_num : (1 : ℝ) < 10) (by exact_mod_cast hpos) hcast
  rw [Real.logb_mul (by positivity) (by norm_num), Double.logb_ten_zpow] at hmono
  linarith

/-- The logarithm of a number that is hardly less than a power of ten is hardly less. -/
theorem sub_le_logb {q : ℚ} {n : ℤ}
    (hle : (10 : ℚ) ^ n * (1 - (2 : ℚ) ^ (-50 : Int)) ≤ q) :
    n - (2 : ℝ) ^ (-49 : Int) ≤ Real.logb 10 q := by
  have hcast : (10 : ℝ) ^ n * (1 - (2 : ℝ) ^ (-50 : Int)) ≤ q := by
    have hreal : ((10 ^ n * (1 - (2 : ℚ) ^ (-50 : Int)) : ℚ) : ℝ) ≤ q := Rat.cast_le.mpr hle
    push_cast at hreal
    exact hreal
  have hfactor : -(2 : ℝ) ^ (-49 : Int) ≤ Real.logb 10 (1 - (2 : ℝ) ^ (-50 : Int)) := by
    have hlog := Real.one_sub_inv_le_log_of_pos
      (show (0 : ℝ) < 1 - (2 : ℝ) ^ (-50 : Int) by norm_num)
    rw [Real.logb, le_div_iff₀ log_ten_pos]
    have hten := lt_log_ten
    norm_num at hlog ⊢
    linarith
  have hmono := Real.logb_le_logb_of_le (by norm_num : (1 : ℝ) < 10)
    (mul_pos (by positivity) (by norm_num)) hcast
  rw [Real.logb_mul (by positivity) (by norm_num), Double.logb_ten_zpow] at hmono
  linarith

namespace Double

/-- The least double above one has a logarithm that is noticeably more than zero. -/
theorem lt_logb_of_one_lt {x : Double} (hone : 1 < x.toRat) :
    (2 : ℝ) ^ (-58 : Int) < Real.logb 10 x.toRat := by
  have hpos : 0 < x.toRat := zero_lt_one.trans hone
  obtain ⟨k, hk⟩ := exists_multiple (x := x) (-52) (by
    rw [abs_of_pos hpos]
    exact (by norm_num : (2 : ℚ) ^ (-52 + 52 : Int) = 1).le.trans hone.le)
  have hk' : 2 ^ 52 + 1 ≤ k := by
    have hless : ((2 ^ 52 : ℤ) : ℚ) < k := by
      rw [hk] at hone
      norm_num at hone ⊢
      linarith
    have hless' : (2 ^ 52 : ℤ) < k := by exact_mod_cast hless
    omega
  have hvalue : (1 : ℝ) + (2 : ℝ) ^ (-52 : Int) ≤ x.toRat := by
    have hreal : ((2 ^ 52 + 1 : ℤ) : ℝ) ≤ k := by exact_mod_cast hk'
    rw [hk]
    push_cast at hreal ⊢
    norm_num at hreal ⊢
    linarith
  have hposReal : (0 : ℝ) < x.toRat := by exact_mod_cast hpos
  have hlog := Real.one_sub_inv_le_log_of_pos hposReal
  have hinv : (x.toRat : ℝ)⁻¹ ≤ (1 + (2 : ℝ) ^ (-52 : Int))⁻¹ := inv_anti₀ (by positivity) hvalue
  rw [Real.logb, lt_div_iff₀ log_ten_pos]
  have hten := log_ten_lt
  norm_num at hinv ⊢
  linarith

/-- Integers of a moderate size are doubles. -/
theorem exists_toRat_eq_intCast {n : ℤ} (hn : n.natAbs ≤ mantissaBound) :
    ∃ x : Double, x.isFinite = true ∧ x.toRat = n :=
  ⟨ofRat false n, toInt?_eq_some_iff.mp (toInt?_ofRat false hn)⟩

section Nearest

variable {y : ℚ} {x : Double} (hx : IsNearest y x)

include hx

/-- Where doubles are multiples of a unit, a number hardly below such a multiple is rounded to no
less. -/
theorem multiple_le_toRat (k place : ℤ) {z : Double} (hz : z.isFinite = true)
    (hvalue : z.toRat = k * (2 : ℚ) ^ place) (hnear : z.toRat - (2 : ℚ) ^ place / 4 ≤ y)
    (hlarge : x.toRat < z.toRat → z.toRat - (2 : ℚ) ^ place / 2 ≤ x.toRat →
      (2 : ℚ) ^ (place + 52) ≤ |x.toRat|) : z.toRat ≤ x.toRat := by
  rcases le_or_gt z.toRat y with hle | hbelow
  · exact hx.le_toRat hz hle
  · by_contra! hless
    have hnearest := hx.nearest z hz
    rw [abs_of_pos (sub_pos.mpr hbelow), abs_le] at hnearest
    have hclose : z.toRat - (2 : ℚ) ^ place / 2 ≤ x.toRat := by linarith [hnearest.1]
    obtain ⟨j, hj⟩ := exists_multiple place (hlarge hless hclose)
    have hunit : (0 : ℚ) < (2 : ℚ) ^ place := by positivity
    rw [hj, hvalue] at hless hclose
    have hnext : j + 1 ≤ k := by exact_mod_cast lt_of_mul_lt_mul_right hless hunit.le
    have hnext' : ((j : ℚ) + 1) * (2 : ℚ) ^ place ≤ k * (2 : ℚ) ^ place :=
      mul_le_mul_of_nonneg_right (by exact_mod_cast hnext) hunit.le
    linarith

/-- A number hardly below an integer other than zero is rounded to no less. -/
theorem intCast_le_toRat {n : ℤ} (hn : n ≠ 0) (hbound : n.natAbs ≤ mantissaBound)
    (hnear : n - (2 : ℚ) ^ (-59 : Int) ≤ y) : n ≤ x.toRat := by
  obtain ⟨z, hz, hvalue⟩ := exists_toRat_eq_intCast hbound
  rw [← hvalue] at hnear ⊢
  refine multiple_le_toRat hx (n * 2 ^ 53) (-53) hz ?_
    ((sub_le_sub_left (by norm_num) _).trans hnear) fun hless hclose => ?_
  · rw [hvalue]
    push_cast
    norm_num
    ring
  · have hhalf : (2 : ℚ) ^ (-53 + 52 : Int) = 1 / 2 := by norm_num
    rw [hhalf]
    rw [hvalue] at hless hclose
    rcases lt_or_gt_of_ne hn with hnegative | hpositive
    · have hcast : (n : ℚ) ≤ -1 := by exact_mod_cast Int.le_sub_one_of_lt hnegative
      rw [abs_of_neg (by linarith)]
      linarith
    · have hcast : (1 : ℚ) ≤ n := by exact_mod_cast hpositive
      have hunit : (2 : ℚ) ^ (-53 : Int) ≤ 1 := by norm_num
      rw [abs_of_pos (by linarith)]
      linarith

/-- Far from zero it need not be as close. -/
theorem intCast_le_toRat_of_le {n : ℤ} (hn : n ≤ -256) (hbound : n.natAbs ≤ mantissaBound)
    (hnear : n - (2 : ℚ) ^ (-46 : Int) ≤ y) : n ≤ x.toRat := by
  obtain ⟨z, hz, hvalue⟩ := exists_toRat_eq_intCast hbound
  have hcast : (n : ℚ) ≤ -256 := by exact_mod_cast hn
  rw [← hvalue] at hnear ⊢
  refine multiple_le_toRat hx (n * 2 ^ 44) (-44) hz ?_
    ((sub_le_sub_left (by norm_num) _).trans hnear) fun hless _ => ?_
  · rw [hvalue]
    push_cast
    norm_num
    ring
  · have hlarge : (2 : ℚ) ^ (-44 + 52 : Int) = 256 := by norm_num
    rw [hvalue] at hless
    rw [hlarge, abs_of_neg (by linarith)]
    linarith

/-- A number hardly above an integer is rounded to less than the next one. -/
theorem toRat_lt_intCast_add_one {n : ℤ} (hbound : n.natAbs ≤ mantissaBound)
    (hnear : y ≤ n + (2 : ℚ) ^ (-59 : Int)) : x.toRat < n + 1 := by
  obtain ⟨z, hz, hvalue⟩ := exists_toRat_eq_intCast hbound
  have hclose : y ≤ (n : ℚ) + 1 / 4 := hnear.trans (add_le_add_right (by norm_num) _)
  rcases le_or_gt y n with hle | habove
  · have hle' := hx.toRat_le hz (hvalue ▸ hle)
    rw [hvalue] at hle'
    linarith
  · have hnearest := hx.nearest z hz
    rw [hvalue, abs_of_neg (sub_neg.mpr habove), abs_le] at hnearest
    linarith [hnearest.2]

end Nearest

theorem floor_eq {x : Double} {n : ℤ} (hlower : n ≤ x.toRat) (hupper : x.toRat < n + 1) :
    x.floor = n :=
  Int.floor_eq_iff.mpr ⟨hlower, hupper⟩

/-! ## Where the rounded logarithm lies -/

section Logarithm

variable {x : Double} (hpos : 0 < x.toRat)

include hpos

/-- The logarithm lies between its floor and the next integer, and neither is large. -/
theorem logb_between :
    (Int.log 10 x.toRat : ℝ) ≤ Real.logb 10 x.toRat ∧
      Real.logb 10 x.toRat ≤ (Int.log 10 x.toRat + 1 : ℤ) ∧
      (Int.log 10 x.toRat).natAbs ≤ 325 := by
  have hlower := Int.zpow_log_le_self (b := 10) (by norm_num) hpos
  have hupper := Int.lt_zpow_succ_log_self (b := 10) (by norm_num) x.toRat
  rw [Nat.cast_ofNat] at hlower hupper
  have hlogLower := le_logb_of_zpow_le hlower
  have hlogUpper := logb_le_of_le_zpow hpos hupper.le
  refine ⟨hlogLower, hlogUpper, ?_⟩
  have hsize := abs_le.mp (abs_logb_le hpos)
  have hleast : ((-325 : ℤ) : ℝ) ≤ (Int.log 10 x.toRat : ℝ) := by
    push_cast at hlogUpper ⊢
    linarith
  have hmost : (Int.log 10 x.toRat : ℝ) ≤ (325 : ℤ) := by
    push_cast
    linarith
  have hleast' : -325 ≤ Int.log 10 x.toRat := by exact_mod_cast hleast
  have hmost' : Int.log 10 x.toRat ≤ 325 := by exact_mod_cast hmost
  omega

/-- The logarithm is not rounded to less than its floor. -/
theorem log_le_log10 : (Int.log 10 x.toRat : ℚ) ≤ x.log10.toRat := by
  obtain ⟨hlogLower, -, hbound⟩ := logb_between hpos
  obtain ⟨logarithm, hnearest, hlog, hone⟩ := exists_isNearest_log10 hpos
  rw [abs_le] at hlog
  rcases eq_or_ne (Int.log 10 x.toRat) 0 with hzero | hnonzero
  · have hlower := Int.zpow_log_le_self (b := 10) (by norm_num) hpos
    rw [hzero, zpow_zero] at hlower
    have hnonneg : (0 : ℝ) ≤ logarithm := by
      rcases hlower.eq_or_lt with hequal | hmore
      · rw [hone hequal.symm, Rat.cast_zero]
      · have hlarge := lt_logb_of_one_lt hmore
        norm_num at hlarge hlog
        linarith
    have hzeroLe := hnearest.le_toRat (y := zero false) rfl
      (by rw [toRat_zero]; exact_mod_cast hnonneg)
    rwa [hzero, Int.cast_zero, ← toRat_zero false]
  · refine intCast_le_toRat hnearest hnonzero (hbound.trans (by decide)) ?_
    have hnear : ((Int.log 10 x.toRat - (2 : ℚ) ^ (-59 : Int) : ℚ) : ℝ) ≤ logarithm := by
      push_cast
      linarith
    exact Rat.cast_le.mp hnear

/-- Nor is it rounded beyond the next integer. -/
theorem log10_lt : x.log10.toRat < Int.log 10 x.toRat + 2 := by
  obtain ⟨-, hlogUpper, hbound⟩ := logb_between hpos
  obtain ⟨logarithm, hnearest, hlog, -⟩ := exists_isNearest_log10 hpos
  rw [abs_le] at hlog
  have hnear : ((logarithm : ℚ) : ℝ) ≤
      (((Int.log 10 x.toRat + 1 : ℤ) + (2 : ℚ) ^ (-59 : Int) : ℚ) : ℝ) := by
    push_cast at hlogUpper ⊢
    linarith
  have hless := toRat_lt_intCast_add_one hnearest
    ((show (Int.log 10 x.toRat + 1).natAbs ≤ 326 by omega).trans (by decide))
    (Rat.cast_le.mp hnear)
  push_cast at hless
  linarith

/-- It is not rounded up to the next integer unless the number is close below a power of ten. -/
theorem log10_lt_of_le
    (hle : x.toRat ≤ (10 : ℚ) ^ (Int.log 10 x.toRat + 1) * (1 - 5 * (10 : ℚ) ^ (-13 : Int))) :
    x.log10.toRat < Int.log 10 x.toRat + 1 := by
  obtain ⟨logarithm, hnearest, hlog, -⟩ := exists_isNearest_log10 hpos
  have hlogLess := logb_le_sub hpos hle
  have hbound := abs_le.mp (abs_logb_le hpos)
  rw [abs_le] at hlog
  have hsmall : |logarithm| ≤ (2 : ℚ) ^ 9 := by
    have htiny : (2 : ℝ) ^ (-59 : Int) ≤ 1 := by norm_num
    have hreal : |(logarithm : ℝ)| ≤ ((2 ^ 9 : ℚ) : ℝ) := by
      push_cast
      rw [abs_le]
      constructor <;> norm_num <;> linarith
    rw [← Rat.cast_abs] at hreal
    exact Rat.cast_le.mp hreal
  have herror := (abs_le.mp (hnearest.error.trans (div_le_div_of_nonneg_right
    (spacing_le_of_abs_le hsmall) (by norm_num)))).2
  have herror' : ((x.log10.toRat - logarithm : ℚ) : ℝ) ≤
      (((2 : ℚ) ^ (((9 : ℕ) : Int) - 52) / 2 : ℚ) : ℝ) := Rat.cast_le.mpr herror
  have hreal : ((x.log10.toRat : ℚ) : ℝ) < ((Int.log 10 x.toRat + 1 : ℚ) : ℝ) := by
    push_cast at herror' hlogLess ⊢
    norm_num at herror' hlogLess hlog
    linarith
  exact Rat.cast_lt.mp hreal

end Logarithm

end Double

/-- What is rounded to the next power of ten lies at most half a unit below it. -/
theorem significant_eq_zpow {q : ℚ} (hpos : 0 < q) {count : ℕ} (hcount : count ≤ 12)
    (hnear : (10 : ℚ) ^ (Int.log 10 q + 1) * (1 - 5 * (10 : ℚ) ^ (-13 : Int)) < q) :
    significant count q = (10 : ℚ) ^ (Int.log 10 q + 1) := by
  have hupper := Int.lt_zpow_succ_log_self (b := 10) (by norm_num) q
  rw [Nat.cast_ofNat] at hupper
  have hplace : significantPlace count q = Int.log 10 q + 1 - count := by
    rw [significantPlace, abs_of_pos hpos]
  have hsplit : (10 : ℚ) ^ (Int.log 10 q + 1) =
      (10 : ℚ) ^ count * (10 : ℚ) ^ significantPlace count q := by
    rw [hplace, ← zpow_natCast, ← zpow_add₀ (by norm_num)]
    congr 1
    ring
  have hunit : (0 : ℚ) < (10 : ℚ) ^ significantPlace count q := by positivity
  rw [significant]
  generalize (10 : ℚ) ^ significantPlace count q = unit at hsplit hunit ⊢
  rw [hsplit] at hnear hupper ⊢
  have hpower : (10 : ℚ) ^ count ≤ (10 : ℚ) ^ 12 := pow_le_pow_right₀ (by norm_num) hcount
  have hrounded : nearestEven (q / unit) = (10 : ℤ) ^ count := by
    refine nearestEven_eq_of_abs_sub_lt ?_
    have hless : q / unit < (10 : ℚ) ^ count := (div_lt_iff₀ hunit).mpr hupper
    have hmore : (10 : ℚ) ^ count * (1 - 5 * (10 : ℚ) ^ (-13 : Int)) < q / unit := by
      rw [lt_div_iff₀ hunit]
      linarith
    push_cast
    rw [abs_of_pos (sub_pos.mpr hless)]
    norm_num at hmore hpower
    linarith
  rw [hrounded]
  push_cast
  rfl

theorem Double.toRat_abs_pos {x : Double} (hzero : x.toRat ≠ 0) : 0 < x.abs.toRat := by
  rw [toRat_abs]
  exact abs_pos.mpr hzero

namespace Display

open Double

/-- The logarithm of a number other than zero has a floor. -/
theorem magnitude_eq {x : Double} (hzero : x.toRat ≠ 0) :
    magnitude x = .ok x.abs.log10.floor := by
  obtain ⟨logarithm, hnearest, -⟩ := exists_isNearest_log10 (toRat_abs_pos hzero)
  have hfinite := hnearest.isFinite
  simp only [magnitude]
  generalize x.abs.log10 = rounded at hfinite
  cases rounded with
  | nan | inf negative => exact absurd hfinite Bool.false_ne_true
  | finite negative mantissa exponent canonical => rfl

/-- The exponents that a rounded logarithm may name: the place of the first digit, or the next place
if that is where the first digit comes to stand when the number is rounded. -/
def NamesFirstDigit (count : ℕ) (q : ℚ) (exponent : ℤ) : Prop :=
  exponent = Int.log 10 |q| ∨
    exponent = Int.log 10 |q| + 1 ∧ |significant count q| = (10 : ℚ) ^ exponent

/-- The floor of the logarithm is such an exponent. -/
theorem exists_magnitude {x : Double} (hzero : x.toRat ≠ 0) {count : ℕ} (hcount : 0 < count)
    (hmost : count ≤ 12) :
    ∃ exponent, magnitude x = .ok exponent ∧ NamesFirstDigit count x.toRat exponent := by
  have hpos := toRat_abs_pos hzero
  have hreached := log_le_log10 hpos
  have hbelow := log10_lt hpos
  refine ⟨_, magnitude_eq hzero, ?_⟩
  rw [NamesFirstDigit, abs_significant hcount, ← toRat_abs]
  by_cases hnext : x.abs.log10.toRat < Int.log 10 x.abs.toRat + 1
  · exact .inl (floor_eq hreached hnext)
  · have hfloor : x.abs.log10.floor = Int.log 10 x.abs.toRat + 1 := by
      refine floor_eq ?_ ?_
      · push_cast
        exact not_lt.mp hnext
      · push_cast
        linarith
    rw [hfloor]
    exact .inr ⟨rfl,
      significant_eq_zpow hpos hmost (not_le.mp fun hle => hnext (log10_lt_of_le hpos hle))⟩

/-- Far below one, the logarithm of a number that is hardly below a power of ten is rounded up to the
exponent. -/
theorem le_magnitude {x : Double} (hzero : x.toRat ≠ 0) {n exponent : ℤ} (hn : n ≤ -256)
    (hbound : n.natAbs ≤ mantissaBound)
    (hle : (10 : ℚ) ^ n * (1 - (2 : ℚ) ^ (-50 : Int)) ≤ |x.toRat|)
    (hmagnitude : magnitude x = .ok exponent) : n ≤ exponent := by
  obtain rfl := Except.ok.inj (hmagnitude.symm.trans (magnitude_eq hzero))
  rw [← toRat_abs] at hle
  obtain ⟨logarithm, hnearest, hlog, -⟩ := exists_isNearest_log10 (toRat_abs_pos hzero)
  have hlower := sub_le_logb hle
  rw [abs_le] at hlog
  have hnear : ((n - (2 : ℚ) ^ (-46 : Int) : ℚ) : ℝ) ≤ logarithm := by
    push_cast
    norm_num at hlog hlower ⊢
    linarith
  exact Int.le_floor.mpr (intCast_le_toRat_of_le hnearest hn hbound (Rat.cast_le.mp hnear))

end Display

end SciCalc
