import SciCalc.Double.Arithmetic
import SciCalc.Proofs.Double.Rounding

/-! # Bounds of doubles

Rounding does not take a number past a power of two. So a number that is at most a power of two
within the range is rounded to a finite double that is at most that power, too.
-/

namespace SciCalc

theorem roundDiv_le {num den n : Nat} (hden : 0 < den) (hle : num ≤ n * den) :
    roundDiv num den ≤ n := by
  have hquotient : num / den ≤ n := Nat.div_le_of_le_mul (by rwa [Nat.mul_comm])
  rcases hquotient.lt_or_eq with hless | heq
  · have hparity := Nat.mod_lt (num / den) Nat.two_pos
    simp only [roundDiv]
    split
    · omega
    split <;> omega
  · have hsplit := Nat.div_add_mod num den
    rw [heq, Nat.mul_comm] at hsplit
    have hremainder : num % den = 0 := by omega
    simp [roundDiv, hremainder, hden, heq]

theorem le_roundDiv {num den n : Nat} (hden : 0 < den) (hle : n * den ≤ num) :
    n ≤ roundDiv num den := by
  have hquotient : n ≤ num / den := (Nat.le_div_iff_mul_le hden).mpr hle
  simp only [roundDiv]
  split
  · exact hquotient
  split <;> omega

namespace Double

/-- The value of a finite double. -/
theorem toRat_finite (negative : Bool) (mantissa : Nat) (exponent : Int)
    (canonical : IsCanonical mantissa exponent) :
    (finite negative mantissa exponent canonical).toRat =
      (if negative then -(mantissa : ℚ) else mantissa) * (2 : ℚ) ^ exponent := by
  have hratio := ratio_scaleBy 2 mantissa 1 exponent
  rw [Nat.cast_one, div_one, Nat.cast_ofNat] at hratio
  simp only [toRat, scaleTwo_eq_scaleBy, Rat.mkRat_eq_div]
  cases negative with
  | false => simpa using hratio
  | true => simp [neg_div, hratio]

theorem abs_toRat_finite (negative : Bool) (mantissa : Nat) (exponent : Int)
    (canonical : IsCanonical mantissa exponent) :
    |(finite negative mantissa exponent canonical).toRat| = mantissa * (2 : ℚ) ^ exponent := by
  rw [toRat_finite, abs_mul, abs_of_pos (zpow_pos (by norm_num : (0 : ℚ) < 2) exponent)]
  cases negative <;> simp

/-- A finite double of at most the given magnitude. -/
def IsWithin (bound : ℚ) (x : Double) : Prop := x.isFinite = true ∧ |x.toRat| ≤ bound

theorem isWithin_finite_iff {bound : ℚ} {negative : Bool} {mantissa : Nat} {exponent : Int}
    {canonical : IsCanonical mantissa exponent} :
    (finite negative mantissa exponent canonical).IsWithin bound ↔
      (mantissa : ℚ) * (2 : ℚ) ^ exponent ≤ bound := by
  rw [IsWithin, abs_toRat_finite]
  exact and_iff_right rfl

theorem isWithin_zero {bound : ℚ} (hbound : 0 ≤ bound) (negative : Bool) :
    (zero negative).IsWithin bound :=
  isWithin_finite_iff.mpr (by simpa using hbound)

/-- A mantissa that fits, or has just been rounded up to the next power of two, gives a finite
double of its own magnitude, unless that is beyond the range. -/
theorem isWithin_ofMantissa (negative : Bool) {mantissa : Nat} {place power : Int}
    (hmantissa : mantissa ≤ mantissaBound) (hleast : leastExponent ≤ place)
    (hnormal : leastNormalMantissa ≤ mantissa ∨ place = leastExponent) (hgreatest : power ≤ 1023)
    (hvalue : (mantissa : ℚ) * (2 : ℚ) ^ place ≤ (2 : ℚ) ^ power) :
    (ofMantissa negative mantissa place).IsWithin ((2 : ℚ) ^ power) := by
  -- A mantissa of so many bits leaves so much less for the place.
  have hroom : ∀ bits : Nat, 2 ^ bits ≤ mantissa → bits + place ≤ power := by
    intro bits hbits
    have hpower : (2 : ℚ) ^ ((bits : Int) + place) ≤ (2 : ℚ) ^ power := by
      refine le_trans ?_ hvalue
      rw [zpow_add₀ (by norm_num), zpow_natCast]
      have hcast : ((2 : ℚ) ^ bits) ≤ mantissa := by exact_mod_cast hbits
      exact mul_le_mul_of_nonneg_right hcast (by positivity)
    exact (zpow_le_zpow_iff_right₀ (by norm_num)).mp hpower
  have hplace : place ≤ greatestExponent := by
    rcases hnormal with hnormal | rfl
    · have hfull := hroom 52 hnormal
      change place ≤ 971
      omega
    · decide
  rcases hmantissa.lt_or_eq with hless | rfl
  · have canonical : IsCanonical mantissa place := ⟨hless, hleast, hplace, hnormal⟩
    rw [ofMantissa_of_canonical negative canonical]
    exact isWithin_finite_iff.mpr hvalue
  · have hfull := hroom 53 le_rfl
    have hnext : place + 1 ≤ greatestExponent := by
      change place + 1 ≤ 971
      omega
    have hcarried : mantissaBound = mantissaBound ∧ leastExponent ≤ place + 1 ∧
        place + 1 ≤ greatestExponent := ⟨rfl, by omega, hnext⟩
    rw [ofMantissa, dif_neg (fun canonical => lt_irrefl _ canonical.1), dif_pos hcarried,
      isWithin_finite_iff]
    refine le_trans (le_of_eq ?_) hvalue
    rw [zpow_add_one₀ (by norm_num)]
    norm_num
    ring

/-- Unless it is infinite, a rounded number has the value of its mantissa and its place. -/
theorem toRat_ofMantissa {negative : Bool} {mantissa : Nat} {place : Int}
    (hfinite : (ofMantissa negative mantissa place).isFinite = true) :
    (ofMantissa negative mantissa place).toRat =
      (if negative then -(mantissa : ℚ) else mantissa) * (2 : ℚ) ^ place := by
  unfold ofMantissa at hfinite ⊢
  split
  next canonical => exact toRat_finite ..
  next hnot =>
    rw [dif_neg hnot] at hfinite
    split
    next hcarried =>
      rw [toRat_finite, hcarried.1, zpow_add_one₀ (by norm_num)]
      split <;> push_cast <;> ring
    next hinfinite =>
      rw [dif_neg hinfinite] at hfinite
      exact absurd hfinite Bool.false_ne_true

theorem abs_toRat_ofMantissa {negative : Bool} {mantissa : Nat} {place : Int}
    (hfinite : (ofMantissa negative mantissa place).isFinite = true) :
    |(ofMantissa negative mantissa place).toRat| = mantissa * (2 : ℚ) ^ place := by
  rw [toRat_ofMantissa hfinite, abs_mul, abs_of_pos (zpow_pos (by norm_num : (0 : ℚ) < 2) place)]
  cases negative <;> simp

section Ratio

variable {num den : Nat} (hnum : 0 < num) (hden : 0 < den)

include hden

/-- The scaled fraction is compared with a power of two through the fraction itself. -/
theorem roundDiv_scaleBy_le {place : Int} (bits : Nat)
    (hle : (num : ℚ) / den ≤ (2 : ℚ) ^ ((bits : Int) + place)) :
    roundDiv (scaleBy 2 num den (-place)).1 (scaleBy 2 num den (-place)).2 ≤ 2 ^ bits := by
  have hdenPos := scaleBy_den_pos Nat.two_pos num (-place) hden
  refine roundDiv_le hdenPos ?_
  have hratio : ((scaleBy 2 num den (-place)).1 : ℚ) / (scaleBy 2 num den (-place)).2 ≤
      (2 : ℚ) ^ bits := by
    rw [ratio_scaleBy, Nat.cast_ofNat, zpow_neg, ← div_eq_mul_inv, div_le_iff₀ (by positivity),
      ← zpow_natCast, ← zpow_add₀ (by norm_num)]
    exact hle
  rw [div_le_iff₀ (by exact_mod_cast hdenPos)] at hratio
  exact_mod_cast hratio

theorem le_roundDiv_scaleBy {place : Int} (bits : Nat)
    (hle : (2 : ℚ) ^ ((bits : Int) + place) ≤ (num : ℚ) / den) :
    2 ^ bits ≤ roundDiv (scaleBy 2 num den (-place)).1 (scaleBy 2 num den (-place)).2 := by
  have hdenPos := scaleBy_den_pos Nat.two_pos num (-place) hden
  refine le_roundDiv hdenPos ?_
  have hratio : (2 : ℚ) ^ bits ≤
      ((scaleBy 2 num den (-place)).1 : ℚ) / (scaleBy 2 num den (-place)).2 := by
    rw [ratio_scaleBy, Nat.cast_ofNat, zpow_neg, ← div_eq_mul_inv, le_div_iff₀ (by positivity),
      ← zpow_natCast, ← zpow_add₀ (by norm_num)]
    exact hle
  rw [le_div_iff₀ (by exact_mod_cast hdenPos)] at hratio
  exact_mod_cast hratio

/-- The mantissa of a fraction at its last place fits. -/
theorem roundDiv_lastPlace_le (hnum : 0 < num) :
    roundDiv (scaleBy 2 num den (-lastPlace num den)).1 (scaleBy 2 num den (-lastPlace num den)).2 ≤
      mantissaBound := by
  have hratioPos : (0 : ℚ) < (num : ℚ) / den := by positivity
  have hplace := lastPlace_eq hnum hden
  refine roundDiv_scaleBy_le hden 53 (le_of_lt ?_)
  exact (Int.lt_zpow_iff_log_lt Nat.one_lt_two hratioPos).mpr (by push_cast; omega)

/-- The mantissa of a fraction at its last place has all its bits, unless that is the place of the
least double. -/
theorem le_roundDiv_lastPlace (hnum : 0 < num) :
    leastNormalMantissa ≤ roundDiv (scaleBy 2 num den (-lastPlace num den)).1
      (scaleBy 2 num den (-lastPlace num den)).2 ∨ lastPlace num den = leastExponent := by
  have hratioPos : (0 : ℚ) < (num : ℚ) / den := by positivity
  rw [lastPlace_eq hnum hden]
  rcases le_total (Int.log 2 ((num : ℚ) / den) - 52) leastExponent with hsubnormal | hnormal
  · exact .inr (max_eq_right hsubnormal)
  · refine .inl (le_roundDiv_scaleBy hden 52 ?_)
    rw [max_eq_left hnormal, Nat.cast_ofNat, add_sub_cancel]
    exact Int.zpow_log_le_self Nat.one_lt_two hratioPos

/-- A fraction that is at most a power of two within the range is rounded to a finite double that
is at most that power. -/
theorem isWithin_ofFraction (negative : Bool) {power : Int} (hleast : leastExponent ≤ power)
    (hgreatest : power ≤ 1023) (hle : (num : ℚ) / den ≤ (2 : ℚ) ^ power) :
    (ofFraction negative num den).IsWithin ((2 : ℚ) ^ power) := by
  rcases Nat.eq_zero_or_pos num with rfl | hnum
  · exact isWithin_zero (by positivity) negative
  have hratioPos : (0 : ℚ) < (num : ℚ) / den := by positivity
  have hplace := lastPlace_eq hnum hden
  have hfits := roundDiv_lastPlace_le hden hnum
  have hfull := le_roundDiv_lastPlace hden hnum
  have hlog : Int.log 2 ((num : ℚ) / den) ≤ power := by
    refine (zpow_le_zpow_iff_right₀ (by norm_num : (1 : ℚ) < 2)).mp (le_trans ?_ hle)
    exact Int.zpow_log_le_self Nat.one_lt_two hratioPos
  rw [ofFraction_of_pos negative hnum]
  generalize lastPlace num den = place at hplace hfits hfull ⊢
  refine isWithin_ofMantissa negative hfits (by omega) hfull hgreatest ?_
  obtain ⟨bits, hbits⟩ := Int.eq_ofNat_of_zero_le (show 0 ≤ power - place by omega)
  have hsum : (bits : Int) + place = power := by omega
  rw [← hsum, zpow_add₀ (by norm_num), zpow_natCast]
  refine mul_le_mul_of_nonneg_right ?_ (by positivity)
  exact_mod_cast roundDiv_scaleBy_le hden bits (hsum ▸ hle)

include hnum

/-- A fraction that is at least a power of two is not rounded to a smaller number. -/
theorem le_abs_toRat_ofFraction {negative : Bool} {power : Int} (hleast : leastExponent ≤ power)
    (hle : (2 : ℚ) ^ power ≤ (num : ℚ) / den)
    (hfinite : (ofFraction negative num den).isFinite = true) :
    (2 : ℚ) ^ power ≤ |(ofFraction negative num den).toRat| := by
  have hratioPos : (0 : ℚ) < (num : ℚ) / den := by positivity
  have hplace := lastPlace_eq hnum hden
  rw [ofFraction_of_pos negative hnum] at hfinite ⊢
  rw [abs_toRat_ofMantissa hfinite]
  generalize lastPlace num den = place at hplace ⊢
  have hlog : power ≤ Int.log 2 ((num : ℚ) / den) :=
    (Int.zpow_le_iff_le_log Nat.one_lt_two hratioPos).mp hle
  obtain ⟨bits, hbits⟩ :=
    Int.eq_ofNat_of_zero_le (show 0 ≤ Int.log 2 ((num : ℚ) / den) - place by omega)
  have hsum : (bits : Int) + place = Int.log 2 ((num : ℚ) / den) := by omega
  calc (2 : ℚ) ^ power ≤ (2 : ℚ) ^ ((bits : Int) + place) :=
        zpow_le_zpow_right₀ (by norm_num) (by omega)
    _ = (2 : ℚ) ^ bits * (2 : ℚ) ^ place := by rw [zpow_add₀ (by norm_num), zpow_natCast]
    _ ≤ _ := by
        refine mul_le_mul_of_nonneg_right ?_ (by positivity)
        refine mod_cast le_roundDiv_scaleBy hden bits ?_
        rw [hsum]
        exact Int.zpow_log_le_self Nat.one_lt_two hratioPos

end Ratio

/-! ## Operations -/

theorem abs_eq_ratio (q : ℚ) : |q| = (q.num.natAbs : ℚ) / q.den := by
  have hden : (0 : ℚ) < q.den := by exact_mod_cast q.den_pos
  conv_lhs => rw [← Rat.num_div_den q, abs_div, abs_of_pos hden]
  rw [Nat.cast_natAbs, Int.cast_abs]

theorem le_abs_toRat_ofRat {negativeZero : Bool} {q : ℚ} {power : Int}
    (hleast : leastExponent ≤ power) (hle : (2 : ℚ) ^ power ≤ |q|)
    (hfinite : (ofRat negativeZero q).isFinite = true) :
    (2 : ℚ) ^ power ≤ |(ofRat negativeZero q).toRat| := by
  have hnum : q.num ≠ 0 := by
    rw [Ne, Rat.num_eq_zero, ← abs_eq_zero]
    exact (lt_of_lt_of_le (by positivity) hle).ne'
  rw [ofRat, if_neg hnum] at hfinite ⊢
  exact le_abs_toRat_ofFraction (Int.natAbs_pos.mpr hnum) q.den_pos hleast (abs_eq_ratio q ▸ hle)
    hfinite

section Operations

variable {power : Int} (hleast : leastExponent ≤ power) (hgreatest : power ≤ 1023)

include hleast hgreatest

theorem isWithin_ofRat (negativeZero : Bool) {q : ℚ} (hle : |q| ≤ (2 : ℚ) ^ power) :
    (ofRat negativeZero q).IsWithin ((2 : ℚ) ^ power) := by
  unfold ofRat
  split
  · exact isWithin_zero (by positivity) negativeZero
  · exact isWithin_ofFraction q.den_pos _ hleast hgreatest (abs_eq_ratio q ▸ hle)

theorem isWithin_ofScaled {mantissa exponent : Int}
    (hle : |(mantissa : ℚ)| * (2 : ℚ) ^ exponent ≤ (2 : ℚ) ^ power) :
    (ofScaled mantissa exponent).IsWithin ((2 : ℚ) ^ power) := by
  simp only [ofScaled]
  split
  · exact isWithin_zero (by positivity) false
  next hmantissa =>
    have hsize : ((2 : ℚ) ^ (Nat.log2 mantissa.natAbs)) ≤ |(mantissa : ℚ)| := by
      have hself := Nat.log2_self_le (Int.natAbs_ne_zero.mpr hmantissa)
      rw [← Int.cast_abs, ← Nat.cast_natAbs]
      exact_mod_cast hself
    have htop : (Nat.log2 mantissa.natAbs : Int) + exponent ≤ power := by
      refine (zpow_le_zpow_iff_right₀ (by norm_num : (1 : ℚ) < 2)).mp (le_trans ?_ hle)
      rw [zpow_add₀ (by norm_num), zpow_natCast]
      exact mul_le_mul_of_nonneg_right hsize (by positivity)
    rw [if_neg (by omega)]
    split
    · exact isWithin_zero (by positivity) _
    · rw [scaleTwo_eq_scaleBy]
      refine isWithin_ofFraction (scaleBy_den_pos Nat.two_pos _ _ Nat.one_pos) _ hleast hgreatest ?_
      rw [ratio_scaleBy, Nat.cast_one, div_one, Nat.cast_natAbs, Int.cast_abs]
      exact hle

end Operations

/-! ## Comparisons -/

theorem toRat_abs (x : Double) : x.abs.toRat = |x.toRat| := by
  cases x with
  | nan | inf negative => exact abs_zero.symm
  | finite negative mantissa exponent canonical =>
      rw [abs, abs_toRat_finite, toRat_finite]
      rfl

theorem isFinite_abs (x : Double) : x.abs.isFinite = x.isFinite := by
  cases x <;> rfl

/-- Finite doubles are compared by value. -/
theorem isLess_iff {x y : Double} (hx : x.isFinite = true) (hy : y.isFinite = true) :
    x.isLess y = true ↔ x.toRat < y.toRat := by
  match x, y with
  | nan, _ | inf _, _ => exact absurd hx Bool.false_ne_true
  | finite _ _ _ _, nan | finite _ _ _ _, inf _ => exact absurd hy Bool.false_ne_true
  | finite _ _ _ _, finite _ _ _ _ =>
      simp only [isLess, order?, compareOfLessAndEq]
      split
      next hless => simp [hless]
      next hnot =>
        split <;> simp [hnot]

theorem isAtMost_iff {x y : Double} (hx : x.isFinite = true) (hy : y.isFinite = true) :
    x.isAtMost y = true ↔ x.toRat ≤ y.toRat := by
  match x, y with
  | nan, _ | inf _, _ => exact absurd hx Bool.false_ne_true
  | finite _ _ _ _, nan | finite _ _ _ _, inf _ => exact absurd hy Bool.false_ne_true
  | finite _ _ _ _, finite _ _ _ _ =>
      simp only [isAtMost, order?, compareOfLessAndEq]
      split
      next hless => simp [hless.le]
      next hnot =>
        split
        next heq => simp [heq]
        next hne => simpa using lt_of_le_of_ne (not_lt.mp hnot) (Ne.symm hne)

/-- The fraction that a double is rounded from for the display. -/
theorem ratio_magnitude {x : Double} (hx : x.isFinite = true) :
    0 < x.magnitude.2 ∧ (x.magnitude.1 : ℚ) / x.magnitude.2 = |x.toRat| := by
  cases x with
  | nan | inf negative => exact absurd hx Bool.false_ne_true
  | finite negative mantissa exponent canonical =>
      rw [← toRat_abs, abs, toRat_finite, magnitude, scaleTwo_eq_scaleBy]
      refine ⟨scaleBy_den_pos Nat.two_pos _ _ Nat.one_pos, ?_⟩
      rw [ratio_scaleBy, Nat.cast_one, div_one]
      rfl

end Double

end SciCalc
