import Mathlib.Algebra.Order.Field.Power
import Mathlib.Data.Int.Log
import Mathlib.Data.Rat.Floor
import Mathlib.Tactic.Positivity
import SciCalc.Numeric.Quotient

/-! # Quotients as rational numbers

A numerator and a denominator stand for their quotient: the scalings multiply it by a power, the
binade is its binary logarithm, and it is rounded to the same number whichever fraction stands
for it.
-/

namespace SciCalc

/-! ## Scaling -/

/-- The fraction `num / den` times a power of the base. -/
def scaleBy (base num den : Nat) (shift : Int) : Nat × Nat :=
  if 0 ≤ shift then (num * base ^ shift.toNat, den) else (num, den * base ^ (-shift).toNat)

theorem scaleTwo_eq_scaleBy (num den : Nat) (shift : Int) :
    scaleTwo num den shift = scaleBy 2 num den shift := by
  simp only [scaleTwo, scaleBy, Nat.shiftLeft_eq]

theorem scaleTen_eq_scaleBy (num den : Nat) (shift : Int) :
    scaleTen num den shift = scaleBy 10 num den shift := rfl

theorem scaleBy_den_pos {base : Nat} (hbase : 0 < base) (num : Nat) {den : Nat} (shift : Int)
    (hden : 0 < den) : 0 < (scaleBy base num den shift).2 := by
  unfold scaleBy
  split
  · exact hden
  · exact Nat.mul_pos hden (Nat.pow_pos hbase)

theorem ratio_scaleBy (base num den : Nat) (shift : Int) :
    ((scaleBy base num den shift).1 : ℚ) / (scaleBy base num den shift).2 =
      num / den * (base : ℚ) ^ shift := by
  unfold scaleBy
  split
  next hshift =>
    obtain ⟨k, rfl⟩ := Int.eq_ofNat_of_zero_le hshift
    simp only [Int.toNat_natCast, Nat.cast_mul, Nat.cast_pow, zpow_natCast]
    exact mul_div_right_comm _ _ _
  next hshift =>
    obtain ⟨k, hk⟩ := Int.eq_ofNat_of_zero_le (a := -shift) (by omega)
    obtain rfl : shift = -(k : Int) := by omega
    simp only [neg_neg, Int.toNat_natCast, Nat.cast_mul, Nat.cast_pow, zpow_neg, zpow_natCast]
    rw [div_mul_eq_div_div, div_eq_mul_inv]

/-! ## Rounding -/

theorem roundDiv_mul_right (num den : Nat) {factor : Nat} (hfactor : 0 < factor) :
    roundDiv (num * factor) (den * factor) = roundDiv num den := by
  have hless : 2 * (num % den * factor) < den * factor ↔ 2 * (num % den) < den := by
    rw [← Nat.mul_assoc, Nat.mul_lt_mul_right hfactor]
  have hmore : den * factor < 2 * (num % den * factor) ↔ den < 2 * (num % den) := by
    rw [← Nat.mul_assoc, Nat.mul_lt_mul_right hfactor]
  simp only [roundDiv, Nat.mul_div_mul_right _ _ hfactor, Nat.mul_mod_mul_right, hless, hmore]

theorem roundDiv_of_mul (n : Nat) {den : Nat} (hden : 0 < den) : roundDiv (n * den) den = n := by
  simp [roundDiv, Nat.mul_div_cancel n hden, hden]

theorem cross_mul_of_ratio_eq {num den num' den' : Nat} (hden : 0 < den) (hden' : 0 < den')
    (hratio : (num : ℚ) / den = num' / den') : num * den' = num' * den := by
  rw [div_eq_div_iff (by positivity) (by positivity)] at hratio
  exact_mod_cast hratio

/-- Fractions of the same number are rounded to the same number. -/
theorem roundDiv_congr {num den num' den' : Nat} (hden : 0 < den) (hden' : 0 < den')
    (hratio : (num : ℚ) / den = num' / den') : roundDiv num den = roundDiv num' den' := by
  calc roundDiv num den = roundDiv (num * den') (den * den') :=
        (roundDiv_mul_right num den hden').symm
    _ = roundDiv (num' * den) (den' * den) := by
        rw [cross_mul_of_ratio_eq hden hden' hratio, Nat.mul_comm den]
    _ = roundDiv num' den' := roundDiv_mul_right num' den' hden

theorem eq_mul_of_ratio_eq {num den n : Nat} (hden : 0 < den) (hratio : (num : ℚ) / den = n) :
    num = n * den := by
  rw [div_eq_iff (by positivity)] at hratio
  exact_mod_cast hratio

theorem num_pos_of_ratio_eq {num den n : Nat} (hratio : (num : ℚ) / den = n) (hn : n ≠ 0) :
    0 < num := by
  refine Nat.pos_of_ne_zero fun hzero => hn ?_
  rw [hzero, Nat.cast_zero, zero_div] at hratio
  exact_mod_cast hratio.symm

/-- A natural number is rounded to itself. -/
theorem roundDiv_eq_of_ratio_eq {num den n : Nat} (hden : 0 < den)
    (hratio : (num : ℚ) / den = n) : roundDiv num den = n := by
  rw [eq_mul_of_ratio_eq hden hratio, roundDiv_of_mul n hden]

/-! ## Leading digits -/

/-- A logarithm is determined by the two powers around the number. -/
theorem log_eq_of_zpow_le_of_lt_zpow {base : Nat} (hbase : 1 < base) {r : ℚ} {exponent : Int}
    (hle : (base : ℚ) ^ exponent ≤ r) (hlt : r < (base : ℚ) ^ (exponent + 1)) :
    Int.log base r = exponent := by
  have hpos : 0 < r := lt_of_lt_of_le (zpow_pos (by exact_mod_cast hbase.pos) _) hle
  have hlower := (Int.zpow_le_iff_le_log hbase hpos).mp hle
  have hupper := (Int.lt_zpow_iff_log_lt hbase hpos).mp hlt
  omega

/-- The quotient of two natural numbers lies within one power of the base around the quotient of
the powers that their leading digits stand for. -/
theorem ratio_between {base num den : Nat} (hbase : 1 < base) (hnum : 0 < num) (hden : 0 < den) :
    (base : ℚ) ^ ((Nat.log base num : Int) - Nat.log base den - 1) ≤ num / den ∧
      (num : ℚ) / den < (base : ℚ) ^ ((Nat.log base num : Int) - Nat.log base den + 1) := by
  have hpos : (0 : ℚ) < base := by exact_mod_cast hbase.pos
  have hdenPos : (0 : ℚ) < den := by exact_mod_cast hden
  have hnumLower : (base : ℚ) ^ (Nat.log base num : Int) ≤ num := by
    exact_mod_cast Nat.pow_log_le_self base hnum.ne'
  have hnumUpper : (num : ℚ) < (base : ℚ) ^ ((Nat.log base num : Int) + 1) := by
    exact_mod_cast Nat.lt_pow_succ_log_self hbase num
  have hdenLower : (base : ℚ) ^ (Nat.log base den : Int) ≤ den := by
    exact_mod_cast Nat.pow_log_le_self base hden.ne'
  have hdenUpper : (den : ℚ) < (base : ℚ) ^ ((Nat.log base den : Int) + 1) := by
    exact_mod_cast Nat.lt_pow_succ_log_self hbase den
  constructor
  · rw [le_div_iff₀ hdenPos]
    calc (base : ℚ) ^ ((Nat.log base num : Int) - Nat.log base den - 1) * den
        ≤ (base : ℚ) ^ ((Nat.log base num : Int) - Nat.log base den - 1) *
            (base : ℚ) ^ ((Nat.log base den : Int) + 1) := by gcongr
      _ = (base : ℚ) ^ (Nat.log base num : Int) := by
          rw [← zpow_add₀ hpos.ne']
          congr 1
          omega
      _ ≤ num := hnumLower
  · rw [div_lt_iff₀ hdenPos]
    calc (num : ℚ) < (base : ℚ) ^ ((Nat.log base num : Int) + 1) := hnumUpper
      _ = (base : ℚ) ^ ((Nat.log base num : Int) - Nat.log base den + 1) *
            (base : ℚ) ^ (Nat.log base den : Int) := by
          rw [← zpow_add₀ hpos.ne']
          congr 1
          omega
      _ ≤ (base : ℚ) ^ ((Nat.log base num : Int) - Nat.log base den + 1) * den := by gcongr

/-- The estimate from the leading digits of numerator and denominator is the logarithm of a positive
fraction or one more, and the scaled fraction shows which. -/
theorem leading_eq_log {base num den : Nat} (hbase : 1 < base) (hnum : 0 < num) (hden : 0 < den)
    {estimate : Int} (hestimate : (Nat.log base num : Int) - Nat.log base den = estimate) :
    (if (scaleBy base num den (-estimate)).2 ≤ (scaleBy base num den (-estimate)).1 then estimate
      else estimate - 1) = Int.log base ((num : ℚ) / den) := by
  obtain ⟨hlower, hupper⟩ := ratio_between hbase hnum hden
  rw [hestimate] at hlower hupper
  have hbasePos : 0 < base := hbase.pos
  have hscaledDen := scaleBy_den_pos hbasePos num (-estimate) hden
  -- The scaled fraction is at least one exactly if the estimate is not too large.
  have hreached : (scaleBy base num den (-estimate)).2 ≤ (scaleBy base num den (-estimate)).1 ↔
      (base : ℚ) ^ estimate ≤ num / den := by
    have hratio := ratio_scaleBy base num den (-estimate)
    rw [← Nat.cast_le (α := ℚ), ← one_le_div (by exact_mod_cast hscaledDen), hratio, zpow_neg,
      ← div_eq_mul_inv, one_le_div (by positivity)]
  symm
  split
  next hle => exact log_eq_of_zpow_le_of_lt_zpow hbase (hreached.mp hle) hupper
  next hnot =>
    refine log_eq_of_zpow_le_of_lt_zpow hbase hlower ?_
    rw [sub_add_cancel]
    exact not_le.mp (fun hle => hnot (hreached.mpr hle))

/-- The binade of a positive fraction is the binary logarithm of its value. -/
theorem binade_eq_log {num den : Nat} (hnum : 0 < num) (hden : 0 < den) :
    binade num den = Int.log 2 ((num : ℚ) / den) := by
  rw [← leading_eq_log Nat.one_lt_two hnum hden rfl]
  simp only [binade, scaleTwo_eq_scaleBy, Nat.log2_eq_log_two]

/-! ## Decimal digits -/

theorem toDigits_mul_ten {n : Nat} (hn : 0 < n) :
    Nat.toDigits 10 (n * 10) = Nat.toDigits 10 n ++ ['0'] := by
  rw [Nat.toDigits_of_base_le (by decide) (by omega), Nat.mul_div_cancel n (by decide),
    Nat.mul_mod_left]
  rfl

theorem toDigits_mul_ten_pow {n : Nat} (hn : 0 < n) (count : Nat) :
    Nat.toDigits 10 (n * 10 ^ count) = Nat.toDigits 10 n ++ List.replicate count '0' := by
  induction count with
  | zero => simp
  | succ count ih =>
      rw [Nat.pow_succ, ← Nat.mul_assoc, toDigits_mul_ten (Nat.mul_pos hn (by positivity)), ih,
        List.append_assoc, List.replicate_succ']

theorem decimalLength_pos (n : Nat) : 0 < decimalLength n := Nat.length_toDigits_pos

theorem decimalLength_le_iff {n count : Nat} (hcount : 0 < count) :
    decimalLength n ≤ count ↔ n < 10 ^ count :=
  Nat.length_toDigits_le_iff (by decide) hcount

/-- A number other than zero has one digit more than its decimal logarithm says. -/
theorem decimalLength_eq_log {n : Nat} (hn : 0 < n) : decimalLength n = Nat.log 10 n + 1 := by
  have hlength := decimalLength_pos n
  have hupper := (decimalLength_le_iff (Nat.succ_pos _)).mpr
    (Nat.lt_pow_succ_log_self (show 1 < 10 by decide) n)
  have hlower := (Nat.log_lt_iff_lt_pow (by decide) hn.ne').mpr
    ((decimalLength_le_iff hlength).mp le_rfl)
  omega

/-- The decade of a positive fraction is the decimal logarithm of its value. -/
theorem decade_eq_log {num den : Nat} (hnum : 0 < num) (hden : 0 < den) :
    decade num den = Int.log 10 ((num : ℚ) / den) := by
  have hestimate : (Nat.log 10 num : Int) - Nat.log 10 den =
      (decimalLength num : Int) - decimalLength den := by
    rw [decimalLength_eq_log hnum, decimalLength_eq_log hden]
    omega
  rw [← leading_eq_log (by decide) hnum hden hestimate]
  rfl

end SciCalc
