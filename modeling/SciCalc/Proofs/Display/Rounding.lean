import SciCalc.Proofs.Decimal.Significant
import SciCalc.Proofs.Display.Magnitude
import SciCalc.Proofs.Outcome

/-! # Rounding for the display is one rounding

A number is rounded to significant digits and read as a double; this is scaled to an integer, rounded
and scaled back. For as many digits as are displayed, all that the scaling can be off by is far less
than one half. So the integer is the one that the significant digits spell, and the second rounding
does not change the first one's result.
-/

namespace SciCalc.Display

open Double

/-! ## Scaling -/

section Products

variable {near exact factor power tiny : ℚ} (hpower : 0 < power) (htiny : 0 ≤ tiny)
  (htiny' : tiny ≤ 1 / 4) (hnear : |near - exact| ≤ |exact| * tiny)
  (hfactor : |factor - power| ≤ power * tiny)

include hpower htiny htiny' hnear hfactor

/-- The relative error of a product of two numbers that are known up to relative errors. -/
theorem abs_mul_sub_le : |near * factor - exact * power| ≤ |exact * power| * (3 * tiny) := by
  have hsize : |factor| ≤ 2 * power := by
    have htriangle := abs_sub_abs_le_abs_sub factor power
    rw [abs_of_pos hpower] at htriangle
    nlinarith
  calc |near * factor - exact * power|
      = |(near - exact) * factor + exact * (factor - power)| := by congr 1; ring
    _ ≤ |near - exact| * |factor| + |exact| * |factor - power| := by
        rw [← abs_mul, ← abs_mul]
        exact abs_add_le _ _
    _ ≤ |exact| * tiny * (2 * power) + |exact| * (power * tiny) := by gcongr
    _ = |exact * power| * (3 * tiny) := by
        rw [abs_mul, abs_of_pos hpower]
        ring

theorem abs_div_sub_le : |near / factor - exact / power| ≤ |exact / power| * (3 * tiny) := by
  have hlower : 3 / 4 * power ≤ factor := by
    have hle := (abs_le.mp hfactor).1
    nlinarith
  have hfactorPos : 0 < factor := by linarith
  calc |near / factor - exact / power|
      = |((near - exact) * power + exact * (power - factor)) / (factor * power)| := by
        congr 1
        field_simp
        ring
    _ = |(near - exact) * power + exact * (power - factor)| / (factor * power) := by
        rw [abs_div, abs_of_pos (mul_pos hfactorPos hpower)]
    _ ≤ (|exact| * tiny * power + |exact| * (power * tiny)) / (3 / 4 * power * power) := by
        refine div_le_div₀ (by positivity) ?_ (by positivity) (by gcongr)
        refine (abs_add_le _ _).trans ?_
        rw [abs_mul, abs_mul, abs_of_pos hpower, abs_sub_comm power]
        gcongr
    _ = |exact| / power * (8 / 3 * tiny) := by
        field_simp
        ring
    _ ≤ |exact / power| * (3 * tiny) := by
        rw [abs_div, abs_of_pos hpower]
        gcongr
        norm_num

end Products

/-- An integer of few digits is found from a number that is hardly off. -/
theorem nearestInteger_ofRat {negativeZero : Bool} {q : ℚ} {n : ℤ} (hn : |(n : ℚ)| ≤ 10 ^ 12)
    (hnear : |q - n| ≤ |(n : ℚ)| * (3 * (2 : ℚ) ^ (-50 : Int))) :
    nearestInteger (ofRat negativeZero q) = .ok n := by
  have hsmall : |q - n| ≤ 1 / 4 := by
    refine hnear.trans ((mul_le_mul_of_nonneg_right hn (by positivity)).trans ?_)
    norm_num
  have hsize : |q| ≤ (2 : ℚ) ^ 41 := by
    have htriangle := abs_sub_abs_le_abs_sub q n
    norm_num
    linarith
  have hfinite := (isWithin_ofRat (show leastExponent ≤ (41 : ℕ) by decide) (by decide) negativeZero
    (by rwa [zpow_natCast])).1
  have hnearest := isNearest_ofRat hfinite
  have hround : nearestInteger (ofRat negativeZero q) = .ok (ofRat negativeZero q).round := by
    generalize ofRat negativeZero q = rounded at hfinite
    cases rounded with
    | nan | inf negative => exact absurd hfinite Bool.false_ne_true
    | finite negative mantissa exponent canonical => rfl
  rw [hround, round_eq_nearestEven]
  refine congrArg _ (nearestEven_eq_of_abs_sub_lt ?_)
  have herror := hnearest.error.trans (div_le_div_of_nonneg_right (spacing_le_of_abs_le hsize)
    (by norm_num))
  have htriangle := abs_sub_le (n : ℚ) q (ofRat negativeZero q).toRat
  rw [abs_sub_comm (n : ℚ) q, abs_sub_comm q (ofRat negativeZero q).toRat] at htriangle
  norm_num at herror
  linarith

/-- The powers of ten as doubles. -/
theorem exists_powerOfTen_near {exponent : ℕ} (hexponent : exponent ≤ 308) :
    ∃ power, powerOfTen exponent = .ok power ∧ power.isFinite = true ∧ power.toRat ≠ 0 ∧
      |power.toRat - (10 : ℚ) ^ exponent| ≤ (10 : ℚ) ^ exponent * (2 : ℚ) ^ (-50 : Int) := by
  have hvalue : ((tenPow exponent : ℕ) : ℚ) / (1 : ℕ) = (10 : ℚ) ^ exponent := by
    rw [Nat.cast_one, div_one, tenPow, Nat.pow_eq, Nat.cast_pow, Nat.cast_ofNat]
  have hfinite : (ofNat (tenPow exponent)).isFinite = true := by
    obtain ⟨greatest, hgreatestFinite, hgreatest⟩ := exists_toRat_greatest
    refine isFinite_ofFraction false Nat.one_pos hgreatestFinite ?_
    rw [hvalue, hgreatest, ← zpow_natCast]
    calc (10 : ℚ) ^ (exponent : ℤ) ≤ (10 : ℚ) ^ (9 + 299 : ℤ) :=
          zpow_le_zpow_right₀ (by norm_num) (by omega)
      _ = (10 : ℚ) ^ (9 : ℤ) * (10 : ℚ) ^ (299 : ℤ) := zpow_add₀ (by norm_num) _ _
      _ ≤ 1797693134 * (10 : ℚ) ^ (299 : ℤ) := by
          gcongr
          norm_num
      _ ≤ 9007199254740991 * (2 : ℚ) ^ greatestExponent := greatest_between.1.le
  have hnearest := isNearest_ofFraction false Nat.one_pos hfinite
  rw [if_neg Bool.false_ne_true, hvalue] at hnearest
  have hpos : (0 : ℚ) < (10 : ℚ) ^ exponent := by positivity
  have hone : (1 : ℚ) ≤ (10 : ℚ) ^ exponent := one_le_pow₀ (by norm_num)
  have herror := hnearest.abs_sub_le (by
    rw [abs_of_pos hpos]
    exact (zpow_le_one_of_nonpos₀ (by norm_num) (by decide)).trans hone)
  rw [abs_of_pos hpos] at herror
  have hnear : |(ofNat (tenPow exponent)).toRat - (10 : ℚ) ^ exponent| ≤
      (10 : ℚ) ^ exponent * (2 : ℚ) ^ (-50 : Int) :=
    herror.trans (mul_le_mul_of_nonneg_left (by norm_num) hpos.le)
  refine ⟨_, by rw [powerOfTen, if_neg (by omega)], hfinite, ?_, hnear⟩
  intro hnone
  rw [hnone, zero_sub, abs_neg, abs_of_pos hpos] at hnear
  norm_num at hnear

/-! ## Rounding -/

section Names

variable {q : ℚ} (hq : q ≠ 0) {count : ℕ} (hcount : 0 < count) {exponent : ℤ}
  (hnames : NamesFirstDigit count q exponent)

include hq hcount hnames

/-- Rounding stays between the power of ten that the exponent names and the next one. -/
theorem NamesFirstDigit.zpow_between :
    (10 : ℚ) ^ exponent ≤ |significant count q| ∧
      |significant count q| ≤ (10 : ℚ) ^ (exponent + 1) := by
  rcases hnames with rfl | ⟨rfl, hnext⟩
  · rw [abs_significant hcount]
    exact significant_between (abs_pos.mpr hq) count hcount
  · rw [hnext]
    exact ⟨le_rfl, zpow_le_zpow_right₀ (by norm_num) (by omega)⟩

/-- The significant digits of a number spell an integer in units of the place where the last of them
stands. -/
theorem NamesFirstDigit.exists_significant_eq (hmost : count ≤ 12) :
    ∃ n : ℤ, significant count q = n * (10 : ℚ) ^ (exponent + 1 - count) ∧
      1 ≤ |(n : ℚ)| ∧ |(n : ℚ)| ≤ 10 ^ 12 := by
  have hpos := abs_pos.mpr hq
  have hpower : (10 : ℤ) ^ count ≤ 10 ^ 12 := pow_le_pow_right₀ (by norm_num) hmost
  have hpositive : ∃ n : ℤ, significant count |q| = n * (10 : ℚ) ^ (exponent + 1 - count) ∧
      1 ≤ n ∧ n ≤ 10 ^ 12 := by
    rcases hnames with rfl | ⟨rfl, hnext⟩
    · obtain ⟨hlower, hupper⟩ := nearestEven_scaled_between hpos count hcount
      refine ⟨_, ?_, (one_le_pow₀ (by norm_num)).trans hlower, hupper.trans hpower⟩
      rw [significant, significantPlace_of_pos hpos]
    · refine ⟨10 ^ (count - 1), ?_, one_le_pow₀ (by norm_num),
        (pow_le_pow_right₀ (by norm_num) (Nat.sub_le count 1)).trans hpower⟩
      rw [← abs_significant hcount, hnext, Int.cast_pow, Int.cast_ofNat, ← zpow_natCast,
        ← zpow_add₀ (by norm_num), Nat.cast_sub hcount]
      congr 1
      push_cast
      ring
  obtain ⟨n, hvalue, hlower, hupper⟩ := hpositive
  have hsize : |(n : ℚ)| = n := abs_of_nonneg (by exact_mod_cast zero_le_one.trans hlower)
  have hlower' : (1 : ℚ) ≤ n := by exact_mod_cast hlower
  have hupper' : (n : ℚ) ≤ 10 ^ 12 := by exact_mod_cast hupper
  rcases abs_cases q with ⟨habs, -⟩ | ⟨habs, -⟩
  · exact ⟨n, by rw [← habs, hvalue], by rwa [hsize], by rwa [hsize]⟩
  · refine ⟨-n, ?_, by rwa [Int.cast_neg, abs_neg, hsize], by rwa [Int.cast_neg, abs_neg, hsize]⟩
    rw [habs, significant_neg] at hvalue
    rw [Int.cast_neg, neg_mul, ← hvalue, neg_neg]

end Names

theorem nearestDecimal_eq {x : Double} (hfinite : x.isFinite = true) {count : ℕ}
    (hcount : 0 < count) (hmost : count ≤ 12) :
    nearestDecimal count x = (Decimal.ofDouble count x).toDouble := by
  have hkept : max 1 (min count mostDigits) = count := by
    rw [mostDigits]
    omega
  rw [nearestDecimal, if_pos hfinite, hkept]

/-- The relative error of reading a number that is not as small as the least doubles. -/
theorem abs_sub_le_of_zpow_ten_le {value : ℚ} {w : Double} (hw : IsNearest value w)
    (hlarge : (10 : ℚ) ^ (-308 : ℤ) ≤ |value|) :
    |w.toRat - value| ≤ |value| * (2 : ℚ) ^ (-50 : Int) := by
  have hpos : 0 < |value| := lt_of_lt_of_le (by positivity) hlarge
  have hleast : (2 : ℚ) ^ leastExponent ≤ |value| * (2 : ℚ) ^ (-49 : Int) := by
    calc (2 : ℚ) ^ leastExponent = (2 : ℚ) ^ (-((1025 : ℕ) : ℤ)) * (2 : ℚ) ^ (-49 : Int) := by
          rw [← zpow_add₀ (by norm_num)]
          rfl
      _ ≤ |value| * (2 : ℚ) ^ (-49 : Int) := by
          refine mul_le_mul_of_nonneg_right (le_trans ?_ hlarge) (by positivity)
          change (2 : ℚ) ^ (-((1025 : ℕ) : ℤ)) ≤ (10 : ℚ) ^ (-((308 : ℕ) : ℤ))
          rw [zpow_neg, zpow_neg, zpow_natCast, zpow_natCast]
          refine inv_anti₀ (by positivity) ?_
          exact_mod_cast (by decide +kernel : 10 ^ 308 ≤ 2 ^ 1025)
  have hspacing : spacing value ≤ |value| * (2 : ℚ) ^ (-49 : Int) := by
    refine (spacing_le_max (abs_pos.mp hpos)).trans (max_le ?_ hleast)
    exact mul_le_mul_of_nonneg_left (by norm_num) hpos.le
  refine hw.error.trans ?_
  calc spacing value / 2 ≤ |value| * (2 : ℚ) ^ (-49 : Int) / 2 := by gcongr
    _ = |value| * (2 : ℚ) ^ (-50 : Int) := by norm_num; ring

section Round

variable {x : Double} (hfinite : x.isFinite = true) (hzero : x.toRat ≠ 0) {count : ℕ}
  (hcount : 0 < count) (hmost : count ≤ 12)
  (hrange : (Decimal.ofDouble count x).toDouble.isFinite = true)

include hfinite hzero hcount hrange

/-- What the significant digits are read as is hardly off. -/
theorem abs_toDouble_sub_le (hlarge : (10 : ℚ) ^ (-308 : ℤ) ≤ |significant count x.toRat|) :
    |(Decimal.ofDouble count x).toDouble.toRat - significant count x.toRat| ≤
      |significant count x.toRat| * (2 : ℚ) ^ (-50 : Int) := by
  have hnearest := Decimal.isNearest_toDouble hrange
  rw [Decimal.toRat_ofDouble hcount hfinite hzero] at hnearest
  exact abs_sub_le_of_zpow_ten_le hnearest hlarge

/-- The significant digits are read as the rounded quotient of the integer that they are in units of
some place. -/
theorem toDouble_eq_of_scaled (hlarge : (10 : ℚ) ^ (-308 : ℤ) ≤ |significant count x.toRat|)
    {n : ℤ} {place : ℕ} (hscaled : significant count x.toRat * (10 : ℚ) ^ place = n) :
    (Decimal.ofDouble count x).toDouble = ofFraction (n < 0) n.natAbs (tenPow place) := by
  have hunit : (0 : ℚ) < (10 : ℚ) ^ place := by positivity
  obtain ⟨-, hsize, hdigits, -⟩ := Decimal.ofDouble_spec hcount hfinite hzero
  have hrat := Decimal.toRat_ofDouble hcount hfinite hzero
  have hnonzero : (Decimal.ofDouble count x).digits ≠ 0 :=
    (lt_of_lt_of_le (by positivity) hdigits).ne'
  have habs := (Decimal.ofDouble count x).abs_toRat
  rw [hrat] at habs
  have hsign : decide (n < 0) = (Decimal.ofDouble count x).negative := by
    have hsigns : n < 0 ↔ significant count x.toRat < 0 := by
      rw [← Int.cast_lt (R := ℚ), Int.cast_zero, ← hscaled]
      exact ⟨fun hless => neg_of_mul_neg_left hless hunit.le,
        fun hless => mul_neg_of_neg_of_pos hless hunit⟩
    rw [← hrat] at hsigns
    rw [decide_eq_decide.mpr hsigns]
    exact (Decimal.negative_eq hnonzero).symm
  rw [hsign]
  refine Decimal.toDouble_eq_ofFraction hnonzero (Decimal.size_lt_of_isFinite hnonzero hrange) ?_
    (Nat.pow_pos (by decide)) ?_
  · rw [← habs]
    exact (zpow_le_zpow_right₀ (by norm_num) (by decide)).trans hlarge
  · rw [← habs, Nat.cast_natAbs, Int.cast_abs, ← hscaled, abs_mul, abs_of_pos hunit, tenPow,
      Nat.pow_eq, Nat.cast_pow, Nat.cast_ofNat, mul_div_cancel_right₀ _ hunit.ne']

include hmost

/-- Rounding gives the double that the significant digits are read as, unless the last of them
stands left of the ones. -/
theorem roundAt_of_nonneg {exponent : ℤ} (hnames : NamesFirstDigit count x.toRat exponent)
    (hplace : exponent < count) (hplace' : (count : ℤ) - exponent - 1 ≤ 308) :
    roundAt exponent x count = .ok (.float (Decimal.ofDouble count x).toDouble) := by
  obtain ⟨n, hvalue, hlower, hupper⟩ := hnames.exists_significant_eq hzero hcount hmost
  obtain ⟨place, hplaceEq⟩ := Int.eq_ofNat_of_zero_le (show 0 ≤ (count : ℤ) - exponent - 1 by omega)
  obtain ⟨power, hpower, hpowerFinite, -, hpowerNear⟩ :=
    exists_powerOfTen_near (show place ≤ 308 by omega)
  have hunit : (0 : ℚ) < (10 : ℚ) ^ place := by positivity
  have hscaled : significant count x.toRat * (10 : ℚ) ^ place = n := by
    rw [hvalue, mul_assoc, ← zpow_natCast, ← zpow_add₀ (by norm_num),
      show exponent + 1 - count + (place : ℤ) = 0 by omega, zpow_zero, mul_one]
  have hlarge : (10 : ℚ) ^ (-308 : ℤ) ≤ |significant count x.toRat| := by
    rw [hvalue, abs_mul, abs_of_pos (by positivity : (0 : ℚ) < (10 : ℚ) ^ (exponent + 1 - count))]
    calc (10 : ℚ) ^ (-308 : ℤ) ≤ (10 : ℚ) ^ (exponent + 1 - count) :=
          zpow_le_zpow_right₀ (by norm_num) (by omega)
      _ ≤ |(n : ℚ)| * (10 : ℚ) ^ (exponent + 1 - count) :=
          le_mul_of_one_le_left (by positivity) hlower
  have hnear := abs_mul_sub_le hunit (by positivity) (by norm_num)
    (abs_toDouble_sub_le hfinite hzero hcount hrange hlarge) hpowerNear
  rw [hscaled] at hnear
  obtain ⟨negativeZero, hproduct⟩ := exists_mul_eq_ofRat hrange hpowerFinite
  simp only [roundAt, bind_ok, hplaceEq, Int.toNat_natCast, Int.natCast_nonneg,
    if_true, nearestDecimal_eq hfinite hcount hmost, hpower, hproduct,
    nearestInteger_ofRat hupper hnear]
  rw [toDouble_eq_of_scaled hfinite hzero hcount hrange hlarge hscaled]
  rfl

/-- Rounding gives the integer that the significant digits spell, if the last of them stands left of
the ones. -/
theorem roundAt_of_neg {exponent : ℤ} (hnames : NamesFirstDigit count x.toRat exponent)
    (hplace : count ≤ exponent) :
    ∃ n : ℤ, roundAt exponent x count = .ok (.int n) ∧ (n : ℚ) = significant count x.toRat := by
  obtain ⟨n, hvalue, hlower, hupper⟩ := hnames.exists_significant_eq hzero hcount hmost
  obtain ⟨place, hplaceEq⟩ := Int.eq_ofNat_of_zero_le (show 0 ≤ exponent + 1 - count by omega)
  rw [hplaceEq, zpow_natCast] at hvalue
  have hunit : (0 : ℚ) < (10 : ℚ) ^ place := by positivity
  have hsize : (10 : ℚ) ^ place ≤ |significant count x.toRat| := by
    rw [hvalue, abs_mul, abs_of_pos hunit]
    exact le_mul_of_one_le_left hunit.le hlower
  have hplaceLess : place ≤ 308 := by
    obtain ⟨-, -, hdigits, -⟩ := Decimal.ofDouble_spec hcount hfinite hzero
    have hless := Decimal.size_lt_of_isFinite (lt_of_lt_of_le (by positivity) hdigits).ne' hrange
    rw [← Decimal.abs_toRat, Decimal.toRat_ofDouble hcount hfinite hzero] at hless
    have hpowers := hsize.trans_lt hless
    rw [← zpow_natCast, zpow_lt_zpow_iff_right₀ (by norm_num)] at hpowers
    omega
  obtain ⟨power, hpower, hpowerFinite, hnonzero, hpowerNear⟩ :=
    exists_powerOfTen_near hplaceLess
  have hlarge : (10 : ℚ) ^ (-308 : ℤ) ≤ |significant count x.toRat| :=
    (zpow_le_one_of_nonpos₀ (by norm_num) (by decide)).trans
      ((one_le_pow₀ (by norm_num)).trans hsize)
  have hnear := abs_div_sub_le hunit (by positivity) (by norm_num)
    (abs_toDouble_sub_le hfinite hzero hcount hrange hlarge) hpowerNear
  rw [hvalue, mul_div_cancel_right₀ _ hunit.ne'] at hnear
  obtain ⟨negativeZero, hquotient⟩ := exists_div_eq_ofRat hrange hpowerFinite hnonzero
  refine ⟨n * tenPow place, ?_, ?_⟩
  · have hneg : ¬0 ≤ (count : ℤ) - exponent - 1 := by omega
    have hexponent : (-((count : ℤ) - exponent - 1)).toNat = place := by omega
    simp only [roundAt, bind_ok, hneg, if_false, hexponent,
      nearestDecimal_eq hfinite hcount hmost, hpower, hquotient,
      nearestInteger_ofRat hupper hnear]
    rfl
  · rw [hvalue, tenPow, Nat.pow_eq]
    push_cast
    rfl

end Round

end SciCalc.Display
