import SciCalc.Proofs.Double.Bounds
import SciCalc.Proofs.Double.Signs
import SciCalc.Proofs.Numeric.NearestEven

/-! # Nearest doubles

Unless the result is infinite, no double is nearer to the exact number than the one that it is
rounded to. Around a number the doubles that count are the multiples of a power of two: doubles with
finer digits lie below the binade of the number, which begins with such a multiple itself.
-/

namespace SciCalc.Double

/-- What the doubles of the size of a number differ by. -/
def spacing (q : ℚ) : ℚ := (2 : ℚ) ^ max (Int.log 2 |q| - 52) leastExponent

/-- A finite double that is nearest to a number: no finite double is nearer, and it is off by at
most half of what the doubles there differ by. -/
structure IsNearest (q : ℚ) (x : Double) : Prop where
  isFinite : x.isFinite = true
  nearest : ∀ y : Double, y.isFinite = true → |x.toRat - q| ≤ |y.toRat - q|
  error : |x.toRat - q| ≤ spacing q / 2

theorem spacing_pos (q : ℚ) : 0 < spacing q := zpow_pos (by norm_num) _

theorem spacing_neg (q : ℚ) : spacing (-q) = spacing q := by rw [spacing, spacing, abs_neg]

theorem least_le_spacing (q : ℚ) : (2 : ℚ) ^ leastExponent ≤ spacing q :=
  zpow_le_zpow_right₀ (by norm_num) (le_max_right _ _)

/-- The doubles around a number differ by little, or by the least double. -/
theorem spacing_le_max {q : ℚ} (hq : q ≠ 0) :
    spacing q ≤ max (|q| * (2 : ℚ) ^ (-52 : Int)) ((2 : ℚ) ^ leastExponent) := by
  have hlog : (2 : ℚ) ^ Int.log 2 |q| ≤ |q| := Int.zpow_log_le_self (by norm_num) (abs_pos.mpr hq)
  rcases le_total (Int.log 2 |q| - 52) leastExponent with hsmall | hnormal
  · rw [spacing, max_eq_right hsmall]
    exact le_max_right _ _
  · rw [spacing, max_eq_left hnormal, sub_eq_add_neg, zpow_add₀ (by norm_num)]
    exact (mul_le_mul_of_nonneg_right hlog (by positivity)).trans (le_max_left _ _)

theorem spacing_le {q : ℚ} (hnormal : (2 : ℚ) ^ (-1022 : Int) ≤ |q|) :
    spacing q ≤ |q| * (2 : ℚ) ^ (-52 : Int) := by
  have hq : q ≠ 0 := abs_pos.mp (lt_of_lt_of_le (by positivity) hnormal)
  refine (spacing_le_max hq).trans (max_le le_rfl ?_)
  calc (2 : ℚ) ^ leastExponent = (2 : ℚ) ^ (-1022 : Int) * (2 : ℚ) ^ (-52 : Int) := by
        rw [← zpow_add₀ (by norm_num)]
        rfl
    _ ≤ |q| * (2 : ℚ) ^ (-52 : Int) := mul_le_mul_of_nonneg_right hnormal (by positivity)

theorem spacing_le_of_abs_le {q : ℚ} {bits : ℕ} (hle : |q| ≤ (2 : ℚ) ^ bits) :
    spacing q ≤ (2 : ℚ) ^ ((bits : Int) - 52) := by
  refine zpow_le_zpow_right₀ (by norm_num) ?_
  have hlog : Int.log 2 |q| ≤ bits := by
    rcases (abs_nonneg q).eq_or_lt with hzero | hpos
    · rw [← hzero, Int.log_zero_right]
      exact Int.natCast_nonneg bits
    · have hless : |q| < ((2 : ℕ) : ℚ) ^ ((bits : Int) + 1) := by
        refine hle.trans_lt ?_
        rw [Nat.cast_ofNat, ← zpow_natCast]
        exact zpow_lt_zpow_right₀ (by norm_num) (lt_add_one _)
      exact Int.lt_add_one_iff.mp ((Int.lt_zpow_iff_log_lt (by norm_num) hpos).mp hless)
  change max (Int.log 2 |q| - 52) (-1074) ≤ _
  omega

namespace IsNearest

variable {q : ℚ} {x : Double}

/-- The relative error of rounding. -/
theorem abs_sub_le (hx : IsNearest q x) (hnormal : (2 : ℚ) ^ (-1022 : Int) ≤ |q|) :
    |x.toRat - q| ≤ |q| * (2 : ℚ) ^ (-53 : Int) := by
  refine hx.error.trans ?_
  calc spacing q / 2 ≤ |q| * (2 : ℚ) ^ (-52 : Int) / 2 := by gcongr; exact spacing_le hnormal
    _ = |q| * (2 : ℚ) ^ (-53 : Int) := by norm_num; ring

theorem neg (hx : IsNearest q x) : IsNearest (-q) x.neg where
  isFinite := by rw [isFinite_neg, hx.isFinite]
  nearest y hy := by
    have hle := hx.nearest y.neg (by rw [isFinite_neg, hy])
    rw [toRat_neg] at hle ⊢
    calc |-x.toRat - -q| = |x.toRat - q| := by rw [← neg_sub', abs_neg]
      _ ≤ |-y.toRat - q| := hle
      _ = |y.toRat - -q| := by rw [← abs_neg, neg_sub', neg_neg]
  error := by
    rw [spacing_neg, toRat_neg, ← neg_sub', abs_neg]
    exact hx.error

/-- Rounding does not take a number past a double. -/
theorem le_toRat (hx : IsNearest q x) {y : Double} (hy : y.isFinite = true) (hle : y.toRat ≤ q) :
    y.toRat ≤ x.toRat := by
  by_contra hless
  have hnearest := hx.nearest y hy
  rw [abs_of_nonpos (by linarith), abs_of_nonpos (by linarith)] at hnearest
  linarith

theorem toRat_le (hx : IsNearest q x) {y : Double} (hy : y.isFinite = true) (hle : q ≤ y.toRat) :
    x.toRat ≤ y.toRat := by
  by_contra hless
  have hnearest := hx.nearest y hy
  rw [abs_of_nonneg (by linarith), abs_of_nonneg (by linarith)] at hnearest
  linarith

end IsNearest

/-! ## Doubles around a number -/

/-- A double is a multiple of each power of two up to its last place. -/
theorem exists_multiple_of_le (negative : Bool) (mantissa : Nat) {exponent place : Int}
    (canonical : IsCanonical mantissa exponent) (hle : place ≤ exponent) :
    ∃ k : ℤ, (finite negative mantissa exponent canonical).toRat = k * (2 : ℚ) ^ place := by
  obtain ⟨k, hk⟩ := Int.eq_ofNat_of_zero_le (sub_nonneg.mpr hle)
  refine ⟨(if negative then -(mantissa : ℤ) else mantissa) * 2 ^ k, ?_⟩
  rw [toRat_finite, ← sub_add_cancel exponent place, hk, zpow_add₀ (by norm_num), zpow_natCast,
    ← mul_assoc]
  cases negative <;> simp

theorem abs_toRat_finite_lt (negative : Bool) (mantissa : Nat) {exponent : Int}
    (canonical : IsCanonical mantissa exponent) :
    |(finite negative mantissa exponent canonical).toRat| < (2 : ℚ) ^ (53 + exponent) := by
  rw [abs_toRat_finite, zpow_add₀ (by norm_num)]
  refine mul_lt_mul_of_pos_right ?_ (by positivity)
  exact_mod_cast canonical.1

/-- Large doubles are multiples of a power of two. -/
theorem exists_multiple {x : Double} (place : Int) (hlarge : (2 : ℚ) ^ (place + 52) ≤ |x.toRat|) :
    ∃ k : ℤ, x.toRat = k * (2 : ℚ) ^ place := by
  cases x with
  | nan | inf negative =>
      refine absurd hlarge (not_le.mpr ?_)
      exact lt_of_eq_of_lt abs_zero (by positivity)
  | finite negative mantissa exponent canonical =>
      refine exists_multiple_of_le negative mantissa canonical ?_
      have hless := hlarge.trans_lt (abs_toRat_finite_lt negative mantissa canonical)
      have hexponent := (zpow_lt_zpow_iff_right₀ (by norm_num : (1 : ℚ) < 2)).mp hless
      omega

/-- No double is nearer to a positive number than the nearest multiple of the spacing there. -/
theorem abs_sub_le_of_isFinite {r : ℚ} (hr : 0 < r) {y : Double} (hy : y.isFinite = true) :
    |nearestEven (r / spacing r) * spacing r - r| ≤ |y.toRat - r| := by
  have hmultiple := abs_nearestEven_mul_sub_le_abs_sub (spacing_pos r) r
  cases y with
  | nan | inf negative => exact absurd hy Bool.false_ne_true
  | finite negative mantissa exponent canonical =>
      rcases le_or_gt (max (Int.log 2 |r| - 52) leastExponent) exponent with hcoarse | hfine
      · -- The double is itself a multiple.
        obtain ⟨k, hk⟩ := exists_multiple_of_le negative mantissa canonical hcoarse
        rw [hk]
        exact hmultiple k
      · -- The double lies below the binade, which begins with a multiple.
        have hleast := canonical.2.1
        have hplace : max (Int.log 2 |r| - 52) leastExponent = Int.log 2 |r| - 52 := by omega
        have hbinade : ((2 ^ 52 : ℤ) : ℚ) * spacing r = (2 : ℚ) ^ Int.log 2 |r| := by
          rw [spacing, hplace, zpow_sub₀ (by norm_num)]
          norm_num
          ring
        have hbegins : (2 : ℚ) ^ Int.log 2 |r| ≤ r := by
          rw [abs_of_pos hr]
          exact Int.zpow_log_le_self (by norm_num) hr
        have hbelow : (finite negative mantissa exponent canonical).toRat ≤
            (2 : ℚ) ^ Int.log 2 |r| :=
          calc (finite negative mantissa exponent canonical).toRat
              ≤ (2 : ℚ) ^ (53 + exponent) :=
                (le_abs_self _).trans (abs_toRat_finite_lt negative mantissa canonical).le
            _ ≤ (2 : ℚ) ^ Int.log 2 |r| := zpow_le_zpow_right₀ (by norm_num) (by omega)
        refine (hmultiple (2 ^ 52)).trans ?_
        rw [hbinade]
        generalize (2 : ℚ) ^ Int.log 2 |r| = binade at hbegins hbelow ⊢
        rw [abs_of_nonpos (by linarith), abs_of_nonpos (by linarith)]
        linarith

theorem isFinite_of_toRat_ne_zero {x : Double} (hx : x.toRat ≠ 0) : x.isFinite = true := by
  cases x with
  | nan | inf negative => exact absurd rfl hx
  | finite negative mantissa exponent canonical => rfl

/-- A double other than zero is at least as large as the least of them. -/
theorem least_le_abs_toRat {x : Double} (hx : x.toRat ≠ 0) : (2 : ℚ) ^ leastExponent ≤ |x.toRat| := by
  cases x with
  | nan | inf negative => exact absurd rfl hx
  | finite negative mantissa exponent canonical =>
      rw [abs_toRat_finite]
      have hmantissa : mantissa ≠ 0 := by
        rintro rfl
        rw [toRat_finite] at hx
        simp at hx
      have hone : (1 : ℚ) ≤ mantissa := by exact_mod_cast Nat.one_le_iff_ne_zero.mpr hmantissa
      calc (2 : ℚ) ^ leastExponent ≤ (2 : ℚ) ^ exponent :=
            zpow_le_zpow_right₀ (by norm_num) canonical.2.1
        _ ≤ mantissa * (2 : ℚ) ^ exponent := le_mul_of_one_le_left (by positivity) hone

/-- The least double lies between two powers of ten, and so does its half. -/
theorem least_between :
    (10 : ℚ) ^ (-324 : ℤ) < (2 : ℚ) ^ leastExponent / 2 ∧
      (2 : ℚ) ^ leastExponent < (10 : ℚ) ^ (-323 : ℤ) := by
  decide +kernel

theorem zpow_lt_least : (10 : ℚ) ^ (-324 : ℤ) < (2 : ℚ) ^ leastExponent :=
  least_between.1.trans (half_lt_self (by positivity))

theorem zpow_le_abs_toRat {x : Double} (hx : x.toRat ≠ 0) : (10 : ℚ) ^ (-324 : ℤ) ≤ |x.toRat| :=
  zpow_lt_least.le.trans (least_le_abs_toRat hx)

/-- No finite double is larger than the greatest one. -/
theorem abs_toRat_le {x : Double} (hx : x.isFinite = true) :
    |x.toRat| ≤ 9007199254740991 * (2 : ℚ) ^ greatestExponent := by
  cases x with
  | nan | inf negative => exact absurd hx Bool.false_ne_true
  | finite negative mantissa exponent canonical =>
      obtain ⟨hmantissa, -, hexponent, -⟩ := canonical
      have hcast : (mantissa : ℚ) ≤ 9007199254740991 := by
        exact_mod_cast Nat.le_of_lt_succ hmantissa
      rw [abs_toRat_finite]
      exact mul_le_mul hcast (zpow_le_zpow_right₀ (by norm_num) hexponent) (by positivity)
        (by norm_num)

theorem exists_toRat_greatest : ∃ x : Double, x.isFinite = true ∧
    x.toRat = 9007199254740991 * (2 : ℚ) ^ greatestExponent :=
  ⟨finite false 9007199254740991 greatestExponent (by decide), rfl, by rw [toRat_finite]; simp⟩

/-- The ten digits that the greatest double begins with. -/
theorem greatest_between :
    1797693134 * (10 : ℚ) ^ (299 : ℤ) < 9007199254740991 * (2 : ℚ) ^ greatestExponent ∧
      9007199254740991 * (2 : ℚ) ^ greatestExponent <
        1797693135 * (10 : ℚ) ^ (299 : ℤ) * (1 - (2 : ℚ) ^ (-53 : Int)) := by
  decide +kernel

theorem greatest_lt_zpow :
    9007199254740991 * (2 : ℚ) ^ greatestExponent <
      (10 : ℚ) ^ (309 : ℤ) * (1 - (2 : ℚ) ^ (-53 : Int)) := by
  refine greatest_between.2.trans_le (mul_le_mul_of_nonneg_right ?_ (by norm_num))
  calc 1797693135 * (10 : ℚ) ^ (299 : ℤ) ≤ (10 : ℚ) ^ (10 : ℤ) * (10 : ℚ) ^ (299 : ℤ) := by
        gcongr
        norm_num
    _ = (10 : ℚ) ^ (309 : ℤ) := by
        rw [← zpow_add₀ (by norm_num)]
        rfl

theorem abs_toRat_lt {x : Double} (hx : x.isFinite = true) :
    |x.toRat| < (10 : ℚ) ^ (309 : ℤ) :=
  (abs_toRat_le hx).trans_lt (greatest_lt_zpow.trans_le
    (mul_le_of_le_one_right (by positivity) (by norm_num)))

/-- Nor is a number much larger if it is rounded to a finite double. -/
theorem IsNearest.abs_mul_le {q : ℚ} {x : Double} (hx : IsNearest q x)
    (hnormal : (2 : ℚ) ^ (-1022 : Int) ≤ |q|) :
    |q| * (1 - (2 : ℚ) ^ (-53 : Int)) ≤ 9007199254740991 * (2 : ℚ) ^ greatestExponent := by
  have herror := hx.abs_sub_le hnormal
  have hbound := abs_toRat_le hx.isFinite
  have htriangle := abs_sub_abs_le_abs_sub q x.toRat
  rw [abs_sub_comm] at htriangle
  linarith

theorem IsNearest.abs_lt {q : ℚ} {x : Double} (hx : IsNearest q x) :
    |q| < (10 : ℚ) ^ (309 : ℤ) := by
  by_contra! hlarge
  have hone : (1 : ℚ) ≤ |q| := (one_le_zpow₀ (by norm_num) (by decide)).trans hlarge
  have hbound := hx.abs_mul_le ((zpow_le_one_of_nonpos₀ (by norm_num) (by decide)).trans hone)
  have hscaled : (10 : ℚ) ^ (309 : ℤ) * (1 - (2 : ℚ) ^ (-53 : Int)) ≤
      |q| * (1 - (2 : ℚ) ^ (-53 : Int)) := mul_le_mul_of_nonneg_right hlarge (by norm_num)
  exact absurd (hscaled.trans hbound) (not_le.mpr greatest_lt_zpow)

theorem toRat_zero (negative : Bool) : (zero negative).toRat = 0 := by
  rw [zero, toRat_finite]
  simp

/-- The absolute value of a number is read as the absolute value of the double. -/
theorem IsNearest.exists_abs {q : ℚ} {x : Double} (hx : IsNearest q x) :
    ∃ y, IsNearest |q| y ∧ y.toRat = |x.toRat| := by
  have hzero := toRat_zero false
  rcases le_or_gt 0 q with hnonneg | hneg
  · refine ⟨x, by rwa [abs_of_nonneg hnonneg], (abs_of_nonneg ?_).symm⟩
    exact hzero ▸ hx.le_toRat (show (zero false).isFinite = true from rfl) (hzero ▸ hnonneg)
  · refine ⟨x.neg, by rw [abs_of_neg hneg]; exact hx.neg, ?_⟩
    rw [toRat_neg]
    refine (abs_of_nonpos ?_).symm
    exact hzero ▸ hx.toRat_le (show (zero false).isFinite = true from rfl) (hzero ▸ hneg.le)

theorem least_eq_two_mul : (2 : ℚ) ^ leastExponent = 2 * (2 : ℚ) ^ (-1075 : Int) := by
  rw [← zpow_one_add₀ (by norm_num)]
  rfl

/-- A number of at most half the least double is nearest to zero. -/
theorem isNearest_zero {q : ℚ} (hsmall : |q| ≤ (2 : ℚ) ^ (-1075 : Int)) (negative : Bool) :
    IsNearest q (zero negative) where
  isFinite := rfl
  nearest y hy := by
    rw [toRat_zero, zero_sub, abs_neg]
    by_cases hzero : y.toRat = 0
    · rw [hzero, zero_sub, abs_neg]
    · have hleast := least_le_abs_toRat hzero
      have hhalf := least_eq_two_mul
      have htriangle := abs_sub_abs_le_abs_sub y.toRat q
      linarith
  error := by
    rw [toRat_zero, zero_sub, abs_neg]
    linarith [least_le_spacing q, least_eq_two_mul]

/-! ## Rounding -/

/-- A fraction is rounded to a nearest double. -/
theorem isNearest_ofFraction (negative : Bool) {num den : Nat} (hden : 0 < den)
    (hfinite : (ofFraction negative num den).isFinite = true) :
    IsNearest (if negative then -((num : ℚ) / den) else num / den)
      (ofFraction negative num den) := by
  have hpositive : ∀ hfinite : (ofFraction false num den).isFinite = true,
      IsNearest ((num : ℚ) / den) (ofFraction false num den) := by
    intro hfinite
    rcases Nat.eq_zero_or_pos num with rfl | hnum
    · rw [Nat.cast_zero, zero_div]
      exact isNearest_zero (by rw [abs_zero]; positivity) false
    · have hratioPos : (0 : ℚ) < (num : ℚ) / den := by positivity
      have hplace : lastPlace num den =
          max (Int.log 2 |(num : ℚ) / den| - 52) leastExponent := by
        rw [lastPlace_eq hnum hden, abs_of_pos hratioPos]
      have hvalue : (ofFraction false num den).toRat =
          nearestEven ((num : ℚ) / den / spacing (num / den)) * spacing (num / den) := by
        rw [ofFraction_of_pos false hnum] at hfinite ⊢
        rw [toRat_ofMantissa hfinite, if_neg Bool.false_ne_true, ← Int.cast_natCast,
          roundDiv_scaleBy Nat.two_pos num hden, hplace, spacing, Nat.cast_ofNat]
      refine ⟨hfinite, fun y hy => ?_, ?_⟩
      · exact hvalue ▸ abs_sub_le_of_isFinite hratioPos hy
      · exact hvalue ▸ abs_nearestEven_mul_sub_le (spacing_pos _) _
  cases negative with
  | false => exact hpositive hfinite
  | true =>
      rw [← Bool.not_false, ← neg_ofFraction] at hfinite ⊢
      rw [isFinite_neg] at hfinite
      exact (hpositive hfinite).neg

/-- A number with its sign, from its numerator and its denominator. -/
theorem signed_ratio (q : ℚ) :
    (if decide (q.num < 0) = true then -((q.num.natAbs : ℚ) / q.den) else q.num.natAbs / q.den) =
      q := by
  have hsize : (q.num.natAbs : ℚ) = |(q.num : ℚ)| := by
    rw [← Int.cast_abs, Int.abs_eq_natAbs, Int.cast_natCast]
  conv_rhs => rw [← Rat.num_div_den q]
  rw [hsize]
  split
  next hnegative =>
    have hcast : (q.num : ℚ) < 0 := by exact_mod_cast of_decide_eq_true hnegative
    rw [abs_of_neg hcast, neg_div, neg_neg]
  next hnonneg =>
    have hcast : (0 : ℚ) ≤ q.num := by
      exact_mod_cast not_lt.mp fun hnegative => hnonneg (decide_eq_true hnegative)
    rw [abs_of_nonneg hcast]

theorem isNearest_ofRat {negativeZero : Bool} {q : ℚ}
    (hfinite : (ofRat negativeZero q).isFinite = true) : IsNearest q (ofRat negativeZero q) := by
  unfold ofRat at hfinite ⊢
  split
  next hzero =>
    rw [Rat.num_eq_zero.mp hzero]
    exact isNearest_zero (by rw [abs_zero]; positivity) _
  next hnonzero =>
    rw [if_neg hnonzero] at hfinite
    have hnearest := isNearest_ofFraction _ q.den_pos hfinite
    rwa [signed_ratio] at hnearest

theorem isNearest_ofScaled {mantissa exponent : Int}
    (hfinite : (ofScaled mantissa exponent).isFinite = true) :
    IsNearest (mantissa * (2 : ℚ) ^ exponent) (ofScaled mantissa exponent) := by
  simp only [ofScaled] at hfinite ⊢
  split
  next hzero =>
    rw [hzero, Int.cast_zero, zero_mul]
    exact isNearest_zero (by rw [abs_zero]; positivity) false
  next hmantissa =>
    rw [if_neg hmantissa] at hfinite
    split
    next hlarge =>
      rw [if_pos hlarge] at hfinite
      exact absurd hfinite Bool.false_ne_true
    next hlarge =>
      rw [if_neg hlarge] at hfinite
      split
      next hsmall =>
        refine isNearest_zero ?_ _
        have hsize : |(mantissa : ℚ)| ≤ (2 : ℚ) ^ (Nat.log2 mantissa.natAbs + 1) := by
          rw [← Int.cast_abs, Int.abs_eq_natAbs, Int.cast_natCast]
          exact_mod_cast (Nat.lt_log2_self (n := mantissa.natAbs)).le
        rw [abs_mul, abs_of_pos (by positivity : (0 : ℚ) < (2 : ℚ) ^ exponent)]
        calc |(mantissa : ℚ)| * (2 : ℚ) ^ exponent
            ≤ (2 : ℚ) ^ (Nat.log2 mantissa.natAbs + 1) * (2 : ℚ) ^ exponent := by gcongr
          _ = (2 : ℚ) ^ ((Nat.log2 mantissa.natAbs + 1 : Nat) + exponent) := by
              rw [zpow_add₀ (by norm_num), zpow_natCast]
          _ ≤ (2 : ℚ) ^ (-1075 : Int) := zpow_le_zpow_right₀ (by norm_num) (by push_cast; omega)
      next hsmall =>
        rw [if_neg hsmall, scaleTwo_eq_scaleBy] at hfinite
        rw [scaleTwo_eq_scaleBy]
        have hnearest := isNearest_ofFraction _ (scaleBy_den_pos Nat.two_pos _ _ Nat.one_pos) hfinite
        have hsigned := signed_ratio mantissa
        rw [Rat.num_intCast, Rat.den_intCast, Nat.cast_one, div_one] at hsigned
        rw [ratio_scaleBy, Nat.cast_one, div_one, Nat.cast_ofNat, ← neg_mul, ← ite_mul,
          hsigned] at hnearest
        exact hnearest

/-! ## Operations -/

/-- The product of finite doubles is the rounded product of their values. -/
theorem exists_mul_eq_ofRat {x y : Double} (hx : x.isFinite = true) (hy : y.isFinite = true) :
    ∃ negativeZero, x.mul y = ofRat negativeZero (x.toRat * y.toRat) := by
  match x, y with
  | nan, _ | inf _, _ => exact absurd hx Bool.false_ne_true
  | finite _ _ _ _, nan | finite _ _ _ _, inf _ => exact absurd hy Bool.false_ne_true
  | finite _ _ _ _, finite _ _ _ _ => exact ⟨_, rfl⟩

/-- The product of two finite doubles is a number. -/
theorem mul_ne_nan {x y : Double} (hx : x.isFinite = true) (hy : y.isFinite = true) :
    x.mul y ≠ .nan := by
  obtain ⟨negativeZero, hproduct⟩ := exists_mul_eq_ofRat hx hy
  rw [hproduct, ofRat]
  split
  next => simp [zero]
  next => exact ofFraction_ne_nan _ _ _

/-- Lower bounds of two factors give one of the product. -/
theorem le_abs_toRat_mul {x y : Double} {power power' : Int} (hx : x.isFinite = true)
    (hy : y.isFinite = true) (hxlower : (2 : ℚ) ^ power ≤ |x.toRat|)
    (hylower : (2 : ℚ) ^ power' ≤ |y.toRat|) (hleast : leastExponent ≤ power + power')
    (hfinite : (x.mul y).isFinite = true) : (2 : ℚ) ^ (power + power') ≤ |(x.mul y).toRat| := by
  obtain ⟨negativeZero, hproduct⟩ := exists_mul_eq_ofRat hx hy
  rw [hproduct] at hfinite ⊢
  refine le_abs_toRat_ofRat hleast ?_ hfinite
  rw [abs_mul, zpow_add₀ (by norm_num)]
  exact mul_le_mul hxlower hylower (by positivity) (abs_nonneg _)

theorem isZero_iff {x : Double} (hx : x.isFinite = true) : x.isZero = true ↔ x.toRat = 0 := by
  cases x with
  | nan | inf negative => exact absurd hx Bool.false_ne_true
  | finite negative mantissa exponent canonical =>
      rw [← abs_eq_zero, abs_toRat_finite, mul_eq_zero, Nat.cast_eq_zero,
        or_iff_left (zpow_ne_zero exponent (by norm_num))]
      cases mantissa <;> simp [isZero]

theorem exists_div_eq_ofRat {x y : Double} (hx : x.isFinite = true) (hy : y.isFinite = true)
    (hzero : y.toRat ≠ 0) : ∃ negativeZero, x.div y = ofRat negativeZero (x.toRat / y.toRat) := by
  have hnonzero : y.isZero = false := by
    rw [← Bool.not_eq_true, isZero_iff hy]
    exact hzero
  match x, y with
  | nan, _ | inf _, _ => exact absurd hx Bool.false_ne_true
  | finite _ _ _ _, nan | finite _ _ _ _, inf _ => exact absurd hy Bool.false_ne_true
  | finite negative _ _ _, finite negative' _ _ _ =>
      refine ⟨negative != negative', ?_⟩
      simp only [div, hnonzero, Bool.false_eq_true, if_false]
      rfl

/-- The sign of a double other than zero is the sign of its value. -/
theorem isNegative_eq {x : Double} (hzero : x.toRat ≠ 0) :
    x.isNegative = decide (x.toRat < 0) := by
  cases x with
  | nan | inf negative => exact absurd rfl hzero
  | finite negative mantissa exponent canonical =>
      have hsize : (0 : ℚ) < mantissa * (2 : ℚ) ^ exponent := by
        rw [← abs_toRat_finite negative mantissa exponent canonical]
        exact abs_pos.mpr hzero
      rw [toRat_finite]
      cases negative with
      | false => simpa [isNegative] using hsize.le
      | true => simpa [isNegative] using hsize

theorem exists_finite_of_toRat_pos {x : Double} (hpos : 0 < x.toRat) :
    ∃ mantissa exponent canonical, 0 < mantissa ∧ x = finite false mantissa exponent canonical := by
  have hsign := isNegative_eq hpos.ne'
  rw [decide_eq_false (not_lt.mpr hpos.le)] at hsign
  cases x with
  | nan | inf negative => exact absurd hpos (lt_irrefl 0)
  | finite negative mantissa exponent canonical =>
      obtain rfl : negative = false := hsign
      refine ⟨mantissa, exponent, canonical, Nat.pos_of_ne_zero fun hzero => ?_, rfl⟩
      rw [toRat_finite, hzero] at hpos
      simp at hpos

theorem isLess_zero (x : Double) : x.isLess (zero false) = (x.isNegative && !x.isZero) := by
  by_cases hfinite : x.isFinite = true
  · rw [Bool.eq_iff_iff, isLess_iff hfinite rfl, toRat_zero, Bool.and_eq_true, Bool.not_eq_true',
      ← Bool.not_eq_true, isZero_iff hfinite]
    by_cases hzero : x.toRat = 0
    · simp [hzero]
    · rw [isNegative_eq hzero]
      simp [hzero]
  · cases x with
    | nan => rfl
    | inf negative => cases negative <;> rfl
    | finite negative mantissa exponent canonical => exact absurd rfl hfinite

theorem isAtMost_zero (x : Double) : x.isAtMost (zero false) = (x.isZero || x.isNegative) := by
  by_cases hfinite : x.isFinite = true
  · rw [Bool.eq_iff_iff, isAtMost_iff hfinite rfl, toRat_zero, Bool.or_eq_true,
      isZero_iff hfinite]
    by_cases hzero : x.toRat = 0
    · simp [hzero]
    · rw [isNegative_eq hzero, decide_eq_true_eq, le_iff_lt_or_eq, or_comm]
  · cases x with
    | nan => rfl
    | inf negative => cases negative <;> rfl
    | finite negative mantissa exponent canonical => exact absurd rfl hfinite

/-- A double is rounded to the integer nearest to its value. -/
theorem round_eq_nearestEven (x : Double) : x.round = nearestEven x.toRat := by
  simp only [round, roundDiv_eq_nearestEven _ x.toRat.den_pos]
  by_cases hzero : x.toRat = 0
  · have hnone : nearestEven 0 = 0 := by simpa using nearestEven_intCast 0
    simp [hzero, hnone]
  · have hsigned := signed_ratio x.toRat
    simp only [Rat.num_neg] at hsigned
    rw [isNegative_eq hzero]
    split
    next hnegative =>
      rw [if_pos hnegative] at hsigned
      rw [← nearestEven_neg, hsigned]
    next hnonneg =>
      rw [if_neg hnonneg] at hsigned
      rw [hsigned]

end SciCalc.Double
