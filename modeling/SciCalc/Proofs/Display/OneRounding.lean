import SciCalc.Proofs.Decimal.Stable
import SciCalc.Proofs.Display.Rounding
import SciCalc.Proofs.Double.WholeNumbers

/-! # Rounding for the display twice is rounding once

Up to twelve significant digits, the result of rounding a double is the integer that the digits spell,
or the double nearest to the number that they spell. Which of the two it is depends on the computed
logarithm, and this can change when the result is rounded again: the double nearest to a power of ten
can lie below it. But the digits stay, and where an integer follows a double or a double an integer,
both are equal.
-/

namespace SciCalc

/-- The value of an integer, or of a finite double. -/
def Number.toRat : Number → ℚ
  | .int n => n
  | .float x => x.toRat

namespace Display

open Double

/-! ## What rounding gives -/

/-- The numbers that rounding can give where the significant digits spell `value`: the integer, or the
double nearest to a number that is not large. -/
inductive Rounded (value : ℚ) : Number → Prop
  | int {n : ℤ} (hn : (n : ℚ) = value) : Rounded value (.int n)
  | float (hsmall : |value| ≤ 10 ^ 12) : Rounded value (.float (ofRat false value))

theorem ofInt_eq_ofRat (n : ℤ) : ofInt n = ofRat false n := by
  rw [ofInt, ofRat, Rat.num_intCast, Rat.den_intCast]
  split
  next hzero => rw [hzero]; rfl
  next => rfl

/-- An integer that is not large is read exactly. -/
theorem toRat_ofRat_intCast {n : ℤ} (hsmall : |(n : ℚ)| ≤ 10 ^ 12) :
    (ofRat false n).toRat = n := by
  have hbound : n.natAbs ≤ mantissaBound := by
    rw [← Int.cast_abs, Int.abs_eq_natAbs] at hsmall
    have hsize : n.natAbs ≤ 10 ^ 12 := by exact_mod_cast hsmall
    exact hsize.trans (by decide)
  exact (toInt?_eq_some_iff.mp (toInt?_ofRat false hbound)).2

namespace Rounded

variable {value : ℚ} {number again : Number}

/-- All of them are read as the same double. -/
theorem toDouble?_eq (hnumber : Rounded value number)
    (hfinite : (ofRat false value).isFinite = true) :
    number.toDouble? = some (ofRat false value) := by
  cases hnumber with
  | int hn => simp only [Number.toDouble?, ofInt_eq_ofRat, hn, hfinite, if_true]
  | float hsmall => rfl

/-- All of them are equal. -/
theorem toRat_eq (hnumber : Rounded value number) (hagain : Rounded value again) :
    again.toRat = number.toRat := by
  have hmixed : ∀ {n : ℤ}, (n : ℚ) = value → |value| ≤ 10 ^ 12 →
      (ofRat false value).toRat = n := by
    rintro n rfl hsmall
    exact toRat_ofRat_intCast hsmall
  cases hnumber with
  | int hn =>
      cases hagain with
      | int hn' => exact hn'.trans hn.symm
      | float hsmall => exact hmixed hn hsmall
  | float hsmall =>
      cases hagain with
      | int hn => exact (hmixed hn hsmall).symm
      | float => rfl

end Rounded

/-! ## One rounding -/

/-- The number is what one correct rounding gives if the first of the significant digits stands at the
exponent: the integer that they spell, if the last of them stands left of the ones, and the nearest
double if it does not. -/
def IsOneRounding (count : ℕ) (exponent : ℤ) (value : ℚ) (number : Number) : Prop :=
  ((count : ℤ) - exponent - 1 < 0 → ∃ n : ℤ, number = .int n ∧ (n : ℚ) = value) ∧
    (0 ≤ (count : ℤ) - exponent - 1 →
      number = .float (ofRat false value) ∧ IsNearest value (ofRat false value))

section Round

variable {x : Double} (hfinite : x.isFinite = true) (hzero : x.toRat ≠ 0) {count : ℕ}
  (hcount : 0 < count) (hmost : count ≤ 12) {exponent : ℤ}
  (hnames : NamesFirstDigit count x.toRat exponent) (hplace : (count : ℤ) - exponent - 1 ≤ 308)
  (hrange : (ofRat false (significant count x.toRat)).isFinite = true)

include hzero hcount hnames hplace

theorem zpow_le_abs_significant :
    (10 : ℚ) ^ ((count : ℤ) - 309) ≤ |significant count x.toRat| :=
  (zpow_le_zpow_right₀ (by norm_num) (by omega)).trans (hnames.zpow_between hzero hcount).1

include hfinite hrange

/-- The significant digits are read as the nearest double to the number that they spell. -/
theorem toDouble_ofDouble_eq :
    (Decimal.ofDouble count x).toDouble = ofRat false (significant count x.toRat) := by
  have hvalue := Decimal.toRat_ofDouble hcount hfinite hzero
  have hsmall := (isNearest_ofRat hrange).abs_lt
  have hlarge : (10 : ℚ) ^ (-324 : ℤ) ≤ |significant count x.toRat| :=
    (zpow_le_zpow_right₀ (by norm_num) (by omega)).trans
      (zpow_le_abs_significant hzero hcount hnames hplace)
  rw [← hvalue] at hsmall hlarge ⊢
  exact Decimal.toDouble_eq_ofRat hlarge hsmall false

include hmost

theorem exists_roundAt_eq :
    ∃ number, roundAt exponent x count = .ok number ∧ Rounded (significant count x.toRat) number ∧
      IsOneRounding count exponent (significant count x.toRat) number := by
  have hread := toDouble_ofDouble_eq hfinite hzero hcount hnames hplace hrange
  rcases lt_or_ge exponent count with hless | hmore
  · refine ⟨_, roundAt_of_nonneg hfinite hzero hcount hmost (hread ▸ hrange) hnames hless hplace,
      hread ▸ .float ?_, by omega, fun _ => ⟨by rw [hread], isNearest_ofRat hrange⟩⟩
    calc |significant count x.toRat| ≤ (10 : ℚ) ^ (exponent + 1) :=
          (hnames.zpow_between hzero hcount).2
      _ ≤ (10 : ℚ) ^ (12 : ℤ) := zpow_le_zpow_right₀ (by norm_num) (by omega)
      _ = 10 ^ 12 := by norm_num
  · obtain ⟨n, hround, hn⟩ :=
      roundAt_of_neg hfinite hzero hcount hmost (hread ▸ hrange) hnames hmore
    exact ⟨_, hround, .int hn, fun _ => ⟨n, rfl, hn⟩, by omega⟩

end Round

theorem roundToPrecision_of_ne_zero {number : Number} {x : Double}
    (hdouble : number.toDouble? = some x) (hzero : x.toRat ≠ 0) {count : ℕ} (hmost : count ≤ 12) :
    roundToPrecision number count = roundDouble x count := by
  have hnonzero : x.isZero = false := by
    rw [← Bool.not_eq_true, isZero_iff (isFinite_of_toRat_ne_zero hzero)]
    exact hzero
  simp only [roundToPrecision, hdouble, hnonzero, Bool.false_eq_true, if_false, Int.toNat_natCast]
  rw [if_neg]
  simp only [Bool.or_eq_true, decide_eq_true_eq]
  omega

/-! ## Another rounding -/

section Again

variable {value : ℚ} {w : Double} (hw : IsNearest value w) {count : ℕ} (hcount : 0 < count)
  (hmost : count ≤ 12) (hfixed : significant count value = value)
  (hlarge : (10 : ℚ) ^ ((count : ℤ) - 309) ≤ |value|)

include hw hcount hlarge

/-- This double is hardly below the power of ten that the rounded number reaches. -/
theorem zpow_mul_le_abs_toRat :
    (10 : ℚ) ^ ((count : ℤ) - 309) * (1 - (2 : ℚ) ^ (-50 : Int)) ≤ |w.toRat| := by
  have hleast : (10 : ℚ) ^ (-308 : ℤ) ≤ (10 : ℚ) ^ ((count : ℤ) - 309) :=
    zpow_le_zpow_right₀ (by norm_num) (by omega)
  have herror := abs_sub_le_of_zpow_ten_le hw (hleast.trans hlarge)
  have htriangle := abs_sub_abs_le_abs_sub value w.toRat
  rw [abs_sub_comm] at htriangle
  have hscaled := mul_le_mul_of_nonneg_right hlarge
    (show (0 : ℚ) ≤ 1 - (2 : ℚ) ^ (-50 : Int) by norm_num)
  linarith

theorem toRat_ne_zero_of_zpow_le : w.toRat ≠ 0 := by
  rw [← abs_pos]
  exact lt_of_lt_of_le (mul_pos (by positivity) (by norm_num))
    (zpow_mul_le_abs_toRat hw hcount hlarge)

include hmost hfixed

/-- The double nearest to a rounded number has the digits of this number. -/
theorem significant_toRat_eq : significant count w.toRat = value := by
  have hpos : 0 < |value| := lt_of_lt_of_le (by positivity) hlarge
  have hlog : (count : ℤ) - 309 ≤ Int.log 10 |value| :=
    (Int.zpow_le_iff_le_log (by decide) hpos).mp hlarge
  refine hw.significant_eq_of_ne_zero (abs_pos.mp hpos) hcount hmost hfixed ?_
  rw [significantPlace]
  omega

/-- Rounded again, the double nearest to a rounded number gives a number that is equal to it. -/
theorem exists_roundAt_again {number : Number} (hnumber : Rounded value number)
    (hrange : w = ofRat false value) {exponent : ℤ}
    (hnames : NamesFirstDigit count w.toRat exponent) (hplace : (count : ℤ) - exponent - 1 ≤ 308) :
    ∃ again, roundAt exponent w count = .ok again ∧ again.toRat = number.toRat := by
  obtain rfl := hrange
  have hzero := toRat_ne_zero_of_zpow_le hw hcount hlarge
  have hsame := significant_toRat_eq hw hcount hmost hfixed hlarge
  obtain ⟨again, hround, hagain, -⟩ := exists_roundAt_eq hw.isFinite hzero hcount hmost hnames
    hplace (hsame.symm ▸ hw.isFinite)
  rw [hsame] at hagain
  exact ⟨again, hround, hnumber.toRat_eq hagain⟩

/-- The logarithm of this double is not so small that the second rounding would lack its scale. -/
theorem exists_roundToPrecision_again {number : Number} (hnumber : Rounded value number)
    (hrange : w = ofRat false value) :
    ∃ again, roundToPrecision number count = .ok again ∧ again.toRat = number.toRat := by
  have hzero := toRat_ne_zero_of_zpow_le hw hcount hlarge
  obtain ⟨exponent, hmagnitude, hnames⟩ := exists_magnitude hzero hcount hmost
  have hexponent : (count : ℤ) - 309 ≤ exponent :=
    le_magnitude hzero (by omega) ((show _ ≤ 309 by omega).trans (by decide))
      (zpow_mul_le_abs_toRat hw hcount hlarge) hmagnitude
  obtain ⟨again, hround, hagain⟩ :=
    exists_roundAt_again hw hcount hmost hfixed hlarge hnumber hrange hnames (by omega)
  refine ⟨again, ?_, hagain⟩
  rw [roundToPrecision_of_ne_zero (hrange ▸ hnumber.toDouble?_eq (hrange ▸ hw.isFinite)) hzero hmost,
    roundDouble, hmagnitude, bind_ok, hround]

end Again

/-- The significant digits are computed by one correct rounding: exactly, where the last of them
stands left of the ones, and otherwise as the nearest double. Rounding again changes nothing. This
holds for every exponent that a rounded logarithm may name, and the logarithm of the number names
one of them. -/
theorem roundToPrecision_is_one_rounding {x : Double} (hfinite : x.isFinite = true)
    (hzero : x.toRat ≠ 0) {count : ℕ} (hcount : 1 ≤ count) (hmost : count ≤ 12)
    (hrange : (ofRat false (significant count x.toRat)).isFinite = true) :
    (∀ exponent : ℤ, NamesFirstDigit count x.toRat exponent →
      (count : ℤ) - exponent - 1 ≤ 308 →
      ∃ number y, roundAt exponent x count = .ok number ∧
        IsOneRounding count exponent (significant count x.toRat) number ∧
        number.toDouble? = some y ∧
        ∀ exponent' : ℤ, NamesFirstDigit count y.toRat exponent' →
          (count : ℤ) - exponent' - 1 ≤ 308 →
          ∃ again, roundAt exponent' y count = .ok again ∧ again.toRat = number.toRat) ∧
    ∃ exponent, magnitude x = .ok exponent ∧ NamesFirstDigit count x.toRat exponent ∧
      roundToPrecision (.float x) count = roundAt exponent x count ∧
      ((count : ℤ) - exponent - 1 ≤ 308 →
        ∃ number, roundToPrecision (.float x) count = .ok number ∧
          IsOneRounding count exponent (significant count x.toRat) number ∧
          ∃ again, roundToPrecision number count = .ok again ∧ again.toRat = number.toRat) := by
  have hnearest := isNearest_ofRat hrange
  have hfixed := significant_significant hcount x.toRat
  constructor
  · intro exponent hnames hplace
    have hlarge := zpow_le_abs_significant hzero hcount hnames hplace
    obtain ⟨number, hround, hnumber, hone⟩ :=
      exists_roundAt_eq hfinite hzero hcount hmost hnames hplace hrange
    refine ⟨number, _, hround, hone, hnumber.toDouble?_eq hrange, ?_⟩
    intro exponent' hnames' hplace'
    exact exists_roundAt_again hnearest hcount hmost hfixed hlarge hnumber rfl hnames' hplace'
  · obtain ⟨exponent, hmagnitude, hnames⟩ := exists_magnitude hzero hcount hmost
    have hprecision : roundToPrecision (.float x) count = roundAt exponent x count := by
      rw [roundToPrecision_of_ne_zero rfl hzero hmost, roundDouble, hmagnitude, bind_ok]
    refine ⟨exponent, hmagnitude, hnames, hprecision, fun hplace => ?_⟩
    have hlarge := zpow_le_abs_significant hzero hcount hnames hplace
    obtain ⟨number, hround, hnumber, hone⟩ :=
      exists_roundAt_eq hfinite hzero hcount hmost hnames hplace hrange
    exact ⟨number, hprecision.trans hround, hone,
      exists_roundToPrecision_again hnearest hcount hmost hfixed hlarge hnumber rfl⟩

/-- As far below one as twelve digits can be rounded. -/
theorem roundToPrecision_is_one_rounding_tiny :
    magnitude (ofFraction true 98765432109876 (10 ^ 310)) = .ok (-297) ∧
      ∃ number again,
        roundToPrecision (.float (ofFraction true 98765432109876 (10 ^ 310))) 12 = .ok number ∧
          number = .float (ofFraction true 987654321099 (10 ^ 308)) ∧
            roundToPrecision number 12 = .ok again ∧ again.toRat = number.toRat := by
  have hmagnitude : magnitude (ofFraction true 98765432109876 (10 ^ 310)) = .ok (-297) := by
    decide +kernel
  obtain ⟨-, exponent, hexponent, -, -, hround⟩ :=
    roundToPrecision_is_one_rounding (x := ofFraction true 98765432109876 (10 ^ 310))
      (by decide +kernel) (by decide +kernel) (show 1 ≤ 12 by decide) (by decide)
      (by decide +kernel)
  obtain rfl := Except.ok.inj (hmagnitude.symm.trans hexponent)
  obtain ⟨number, hround, ⟨-, hfloat⟩, again, hagain, hsame⟩ := hround (by decide)
  refine ⟨hmagnitude, number, again, hround, ?_, hagain, hsame⟩
  rw [(hfloat (by decide)).1]
  decide +kernel

end Display

end SciCalc
