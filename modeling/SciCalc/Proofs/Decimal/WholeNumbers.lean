import SciCalc.Proofs.Decimal.Bounds
import SciCalc.Proofs.Decimal.Printed
import SciCalc.Proofs.Double.WholeNumbers

/-! # Whole decimals

A decimal that stands for an integer up to the bound of the mantissas is read as that integer. Below
the bound, the shortest decimal of a whole double stands for the same integer and has no fraction:
the digits down to the ones always read back, so no place behind the point is looked at.
-/

namespace SciCalc

/-- An integer is written in decimal digits, with a minus if it is negative. -/
theorem toList_toString_int (n : Int) :
    (toString n).toList = (if n < 0 then ['-'] else []) ++ Nat.toDigits 10 n.natAbs := by
  cases n with
  | ofNat n => simp [Int.toString_eq_repr, Int.repr]
  | negSucc n => simp [Int.toString_eq_repr, Int.repr, Int.negSucc_lt_zero]

namespace Decimal

/-- A decimal that stands for an integer up to the bound is read as that integer. -/
theorem toInt?_toDouble {d : Decimal} {n : Nat} (hsize : d.size = n) (hn : n ≤ mantissaBound) :
    d.toDouble.toInt? = some (if d.negative then -(n : Int) else n) := by
  simp only [toDouble]
  split
  next hzero =>
    have hn : n = 0 := by
      rw [size, hzero, Nat.cast_zero, zero_mul] at hsize
      exact_mod_cast hsize.symm
    rw [hn, Double.toInt?_zero]
    simp
  next hdigits =>
    have hpos : 0 < d.size := mul_pos (by exact_mod_cast Nat.pos_of_ne_zero hdigits) (by positivity)
    have hone : (10 : ℚ) ^ (0 : Int) ≤ d.size := by
      rw [hsize] at hpos ⊢
      rw [zpow_zero]
      exact_mod_cast hpos
    have hupper : d.size < (10 : ℚ) ^ (309 : Int) := by
      calc d.size ≤ (mantissaBound : Nat) := by rw [hsize]; exact_mod_cast hn
        _ < (10 : ℚ) ^ (16 : Int) := by norm_num
        _ ≤ (10 : ℚ) ^ (309 : Int) := zpow_le_zpow_right₀ (by norm_num) (by decide)
    have hlength := decimalLength_add_le hdigits hupper
    have hlength' := lt_decimalLength_add hdigits hone
    rw [if_neg (by omega), if_neg (by omega), scaleTen_eq_scaleBy]
    refine Double.toInt?_ofFraction d.negative (scaleBy_den_pos (by decide) _ _ Nat.one_pos) ?_ hn
    rw [ratio_scaleBy, Nat.cast_one, div_one]
    exact hsize

/-- A decimal without a fraction that is read as an integer below the bound stands for it. -/
theorem digits_of_toInt? {d : Decimal} {n : Int} {places : Nat} (hplaces : d.exponent = places)
    (hread : d.toDouble.toInt? = some n) (hn : n.natAbs < mantissaBound) :
    d.digits * 10 ^ places = n.natAbs := by
  have hsize : d.size = (d.digits * 10 ^ places : Nat) := by
    rw [size, hplaces, zpow_natCast]
    push_cast
    rfl
  have hbelow : d.digits * 10 ^ places < mantissaBound := by
    by_contra hnot
    have hlarge : (2 : ℚ) ^ 53 ≤ d.size := by
      rw [hsize]
      exact_mod_cast not_lt.mp hnot
    have hkept := le_abs_toRat_toDouble hlarge (Double.toInt?_eq_some_iff.mp hread).1
    rw [Double.abs_toRat_of_toInt? hread] at hkept
    exact absurd hn (not_lt.mpr (by exact_mod_cast hkept))
  have hexact := toInt?_toDouble hsize hbelow.le
  rw [hread] at hexact
  rw [Option.some.inj hexact]
  generalize d.digits * 10 ^ places = m
  cases d.negative <;> simp

/-- Rounding to significant digits keeps an integer that has no more of them. -/
theorem size_ofFraction_whole {count num den n : Nat} (negative : Bool) (hden : 0 < den)
    (hvalue : (num : ℚ) / den = n) (hn : n ≠ 0) (hdigits : n < 10 ^ count) :
    (ofFraction count negative num den).size = n ∧
      (ofFraction count negative num den).negative = negative := by
  have hnum := num_pos_of_ratio_eq hvalue hn
  have hlog : Nat.log 10 n < count := Nat.log_lt_of_lt_pow hn hdigits
  obtain ⟨room, hroom⟩ := Nat.exists_eq_add_of_le (show Nat.log 10 n + 1 ≤ count by omega)
  have hplace : (Nat.log 10 n : Int) + 1 - count = -(room : Int) := by omega
  have hrounded : roundDiv (scaleBy 10 num den room).1 (scaleBy 10 num den room).2 =
      n * 10 ^ room := by
    refine roundDiv_eq_of_ratio_eq (scaleBy_den_pos (by decide) _ _ hden) ?_
    rw [ratio_scaleBy, hvalue, zpow_natCast]
    push_cast
    rfl
  have hbelow : n * 10 ^ room ≠ tenPow count := by
    refine (show n * 10 ^ room < 10 ^ count from ?_).ne
    rw [hroom, Nat.pow_add]
    exact Nat.mul_lt_mul_of_pos_right (Nat.lt_pow_succ_log_self (by decide) n) (by positivity)
  simp only [ofFraction, decade_eq_log hnum hden, hvalue, Int.log_natCast, hplace, Int.neg_neg,
    scaleTen_eq_scaleBy, hrounded, hbelow, if_false, size, and_true]
  rw [zpow_neg, zpow_natCast, Nat.cast_mul, Nat.cast_pow, Nat.cast_ofNat]
  exact mul_inv_cancel_right₀ (by positivity) _

/-! ## The shortest decimal -/

theorem exponent_of_readingBack? {target : Double} {num den : Nat} {place : Int} {d : Decimal}
    (hfound : readingBack? target num den place = some d) : d.exponent = place := by
  simp only [readingBack?] at hfound
  split at hfound
  next =>
    obtain rfl := Option.some.inj hfound
    split <;> rfl
  split at hfound
  next =>
    obtain rfl := Option.some.inj hfound
    rfl
  split at hfound
  next =>
    obtain rfl := Option.some.inj hfound
    rfl
  next => simp at hfound

/-- An integer reads back at the place of the ones. -/
theorem exists_readingBack? {target : Double} {num den n : Nat} (hden : 0 < den)
    (hvalue : (num : ℚ) / den = n) (hreads : toDouble ⟨false, n, 0⟩ = target) :
    ∃ d, readingBack? target num den 0 = some d := by
  have hquotient : num / den = n := by
    rw [eq_mul_of_ratio_eq hden hvalue, Nat.mul_div_cancel n hden]
  have hscaled : scaleTen num den (-0) = (num, den) := by simp [scaleTen, tenPow]
  have hlower : (toDouble ⟨false, num / den, 0⟩ == target) = true := by
    rw [hquotient, hreads, beq_self_eq_true]
  simp only [readingBack?, hscaled, hlower, Bool.true_and, if_true]
  split <;> exact ⟨_, rfl⟩

/-- The search ends at the place where something reads back, or before. -/
theorem exists_firstReadingBack? {target : Double} {num den fuel : Nat} {place least : Int}
    (hreads : ∃ d, readingBack? target num den least = some d) (hle : least ≤ place)
    (hfuel : place < least + fuel) :
    ∃ d, firstReadingBack? target num den fuel place = some d ∧ least ≤ d.exponent := by
  induction fuel generalizing place with
  | zero => omega
  | succ fuel ih =>
      rw [firstReadingBack?]
      cases hfound : readingBack? target num den place with
      | some d => exact ⟨d, rfl, (exponent_of_readingBack? hfound).symm ▸ hle⟩
      | none =>
          have hnext : least ≠ place := by
            rintro rfl
            obtain ⟨d, hd⟩ := hreads
            rw [hd] at hfound
            cases hfound
          exact ih (by omega) (by omega)

theorem exponent_le_stripZeros (fuel digits : Nat) (exponent : Int) :
    exponent ≤ (stripZeros fuel digits exponent).2 := by
  induction fuel generalizing digits exponent with
  | zero => exact le_rfl
  | succ fuel ih =>
      rw [stripZeros]
      split
      · exact (Int.le_add_one le_rfl).trans (ih _ _)
      · exact le_rfl

theorem exponent_normalize_nonneg {d : Decimal} (hexponent : 0 ≤ d.exponent) :
    0 ≤ d.normalize.exponent := by
  unfold normalize
  split
  · exact le_rfl
  · exact hexponent.trans (exponent_le_stripZeros _ _ _)

theorem size_ofNat (n : Nat) : (⟨false, n, 0⟩ : Decimal).size = n := by
  rw [size, zpow_zero, mul_one]

/-- The digits of an integer up to the bound read back as the double that stands for it. -/
theorem toDouble_ofNat {mantissa : Nat} {exponent : Int} (canonical : IsCanonical mantissa exponent)
    {n : Nat} (hn : n ≠ 0) (hbound : n ≤ mantissaBound)
    (hvalue : (mantissa : ℚ) * (2 : ℚ) ^ exponent = n) :
    toDouble ⟨false, n, 0⟩ = .finite false mantissa exponent canonical := by
  have hdecimal := toInt?_toDouble (size_ofNat n) hbound
  have hdouble : (Double.finite false mantissa exponent canonical).toInt? = some (n : Int) := by
    rw [Double.toInt?_eq_some_iff, Double.toRat_finite]
    exact ⟨rfl, by simpa using hvalue⟩
  rw [Double.eq_ofInt_of_toInt? hdecimal (by simpa using hn),
    Double.eq_ofInt_of_toInt? hdouble (by simpa using hn)]
  rfl

/-- The shortest decimal of an integer below the bound has no fraction. -/
theorem exponent_shortestMagnitude_nonneg {mantissa : Nat} {exponent : Int}
    (canonical : IsCanonical mantissa exponent) {n : Nat} (hn : n ≠ 0) (hbound : n < mantissaBound)
    (hvalue : (mantissa : ℚ) * (2 : ℚ) ^ exponent = n) :
    0 ≤ (shortestMagnitude mantissa exponent canonical).exponent := by
  have hden := scaleBy_den_pos Nat.two_pos mantissa exponent Nat.one_pos
  have hratio := ratio_scaleBy 2 mantissa 1 exponent
  rw [Nat.cast_one, div_one, Nat.cast_ofNat, hvalue] at hratio
  have hdecade : decade (scaleBy 2 mantissa 1 exponent).1 (scaleBy 2 mantissa 1 exponent).2 =
      Nat.log 10 n := by
    rw [decade_eq_log (num_pos_of_ratio_eq hratio hn) hden, hratio, Int.log_natCast]
  have hlog : Nat.log 10 n < 17 :=
    Nat.log_lt_of_lt_pow hn (hbound.trans (by decide))
  obtain ⟨d, hfound, hexponent⟩ := exists_firstReadingBack?
    (exists_readingBack? hden hratio (toDouble_ofNat canonical hn hbound.le hvalue))
    (Int.natCast_nonneg _) (show (Nat.log 10 n : Int) < 0 + (17 : Nat) by omega)
  simp only [shortestMagnitude, scaleTwo_eq_scaleBy, hdecade, hfound, Option.getD_some]
  exact exponent_normalize_nonneg hexponent

end Decimal

namespace Double

theorem exponent_shortest_nonneg {x : Double} {n : Int} (hx : x.toInt? = some n) (hn : n ≠ 0)
    (hbound : n.natAbs < mantissaBound) : 0 ≤ x.shortest.exponent := by
  obtain ⟨negative, mantissa, exponent, canonical, rfl, hsize⟩ := exists_finite_of_toInt? hx
  rw [shortest]
  split
  · exact le_rfl
  · exact Decimal.exponent_shortestMagnitude_nonneg canonical (Int.natAbs_ne_zero.mpr hn) hbound
      hsize

/-- The shortest decimal of a whole double has no fraction, and its digits are those of the
integer. -/
theorem exists_shortest {x : Double} {n : Int} (hx : x.toInt? = some n) (hn : n ≠ 0)
    (hbound : n.natAbs < mantissaBound) :
    ∃ places : Nat, x.shortest.exponent = places ∧ 0 < x.shortest.digits ∧
      x.shortest.digits * 10 ^ places = n.natAbs := by
  obtain ⟨places, hplaces⟩ := Int.eq_ofNat_of_zero_le (exponent_shortest_nonneg hx hn hbound)
  have hread : x.shortest.toDouble.toInt? = some n := by
    rw [toDouble_shortest (toInt?_eq_some_iff.mp hx).1, hx]
  have hdigits := Decimal.digits_of_toInt? hplaces hread hbound
  refine ⟨places, hplaces, Nat.pos_of_ne_zero fun hzero => hn ?_, hdigits⟩
  rw [hzero, Nat.zero_mul] at hdigits
  exact Int.natAbs_eq_zero.mp hdigits.symm

end Double

end SciCalc
