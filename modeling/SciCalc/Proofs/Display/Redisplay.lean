import SciCalc.Proofs.Decimal.Stable
import SciCalc.Proofs.Display.DigitCount

/-! # Displaying what has been displayed

The number that a display text stands for, read as a double, is displayed as the same text. Its
digits are those that are displayed already, and they stay as they are. But the notation can change:
whether there is a power of ten is decided before a number is rounded, and rounding can take it
across a limit. And ten digits close to the greatest double can be beyond all of them.
-/

namespace SciCalc.Display

open Double

/-- Rounding takes the number to ten to the minus six or to ten thousand million, where the notation
changes. -/
def ReachesLimit (x : Double) : Prop :=
  19999999999 / 2 * (10 : ℚ) ^ (-16 : ℤ) ≤ |x.toRat| ∧
      |x.toRat| < Settings.exponentThreshold.toRat ∨
    19999999999 / 2 ≤ |x.toRat| ∧ |x.toRat| < 10 ^ 10

instance (x : Double) : Decidable (ReachesLimit x) := inferInstanceAs (Decidable (_ ∨ _))

/-- The greatest number whose ten digits are read as a finite double. -/
def rangeLimit : ℚ := 17976931345 * (10 : ℚ) ^ (298 : ℤ)

/-- It lies in the middle between two numbers of ten digits. -/
theorem rangeLimit_eq : rangeLimit = (1797693134 + 1 / 2) * (10 : ℚ) ^ (299 : ℤ) := by
  rw [rangeLimit, show (299 : ℤ) = 298 + 1 by rfl, zpow_add_one₀ (by norm_num)]
  ring

theorem significant_le_of_le_rangeLimit {q : ℚ} (hpos : 0 < q) (hle : q ≤ rangeLimit) :
    significant 10 q ≤ (1797693134 : ℤ) * (10 : ℚ) ^ (299 : ℤ) := by
  rcases hle.eq_or_lt with rfl | hless
  · decide +kernel
  · exact significant_le hpos 10 1797693134 299 (by decide) (by decide) (by decide)
      (by exact_mod_cast hless.trans_eq rangeLimit_eq)

theorem le_significant_of_rangeLimit_lt {q : ℚ} (hless : rangeLimit < q) :
    (1797693135 : ℤ) * (10 : ℚ) ^ (299 : ℤ) ≤ significant 10 q := by
  rw [rangeLimit_eq] at hless
  have hpos : 0 < q := lt_trans (by positivity) hless
  refine le_significant hpos 10 1797693135 299 (by decide) (by decide) (by decide)
    (lt_of_eq_of_lt ?_ hless)
  norm_num

section Again

variable {x w : Double}

/-- With a power of ten, the notation and the digits stay. -/
theorem scientific_again (hzero : x.toRat ≠ 0) (hpower : NeedsPower x) (hreaches : ¬ReachesLimit x)
    (hw : IsNearest (significant 10 |x.toRat|) w) (hnonneg : 0 ≤ w.toRat) :
    NeedsPower w ∧ significant 10 w.toRat = significant 10 |x.toRat| := by
  have hpos := abs_pos.mpr hzero
  refine ⟨?_, ?_⟩
  · rw [NeedsPower, abs_of_nonneg hnonneg]
    rcases hpower with hlarge | hsmall
    · have hlog : 10 ≤ Int.log 10 |x.toRat| :=
        (Int.zpow_le_iff_le_log (by decide) hpos).mp (by exact_mod_cast hlarge)
      have hlimit := Settings.largeThreshold_toRat
      refine .inl (hlimit ▸ hw.le_toRat (y := Settings.largeThreshold) rfl ?_)
      rw [hlimit]
      refine le_trans ?_ (significant_between hpos 10 (by decide)).1
      exact zpow_le_zpow_right₀ (n := Int.log 10 |x.toRat|) (by norm_num) hlog
    · have hless : |x.toRat| < 19999999999 / 2 * (10 : ℚ) ^ (-16 : ℤ) :=
        not_le.mp fun hle => hreaches (.inl ⟨hle, hsmall⟩)
      have hupper := significant_le hpos 10 9999999999 (-16) (by decide) (by decide) (by decide)
        (hless.trans_eq (by norm_num))
      obtain ⟨y, hy, hyLower, hyUpper⟩ : ∃ y : Double, y.isFinite = true ∧
          ((9999999999 : ℤ) : ℚ) * (10 : ℚ) ^ (-16 : ℤ) ≤ y.toRat ∧
            y.toRat < Settings.exponentThreshold.toRat :=
        ⟨ofFraction false 99999999995 100000000000000000, by decide +kernel, by decide +kernel,
          by decide +kernel⟩
      exact .inr ((hw.toRat_le hy (hupper.trans hyLower)).trans_lt hyUpper)
  · have habs : 0 < x.abs.toRat := by rwa [toRat_abs]
    rw [← toRat_abs] at hw ⊢
    exact hw.significant_ten_eq habs

/-- What is shown without a power of ten is ten digits, or nine decimals. -/
theorem shown_cases {q : ℚ} (hpos : 0 < q) :
    1 ≤ shown q ∧ shown q = significant 10 q ∨
      shown q < 1 ∧ ∃ n : ℕ, shown q * 10 ^ 9 = n := by
  rw [shown_of_pos hpos]
  split
  next hle => exact .inl ⟨hle, rfl⟩
  next hless =>
    have hnonneg : 0 ≤ significant 10 q :=
      le_trans (by positivity) (significant_between hpos 10 (by decide)).1
    refine .inr ⟨(truncated_le hnonneg 9).trans_lt (not_le.mp hless),
      ⌊significant 10 q * 10 ^ 9⌋₊, ?_⟩
    rw [truncated_of_nonneg hnonneg, div_mul_cancel₀ _ (by positivity)]

/-- What is shown has at most ten digits. -/
theorem significant_shown {q : ℚ} (hpos : 0 < q) (hshown : 0 < shown q) :
    significant 10 (shown q) = shown q := by
  rcases shown_cases hpos with ⟨-, hequal⟩ | ⟨hless, n, hn⟩
  · rw [hequal, significant_significant (by decide)]
  · have hmultiple : shown q = (n : ℤ) * (10 : ℚ) ^ (-9 : ℤ) := by
      rw [Int.cast_natCast, ← hn]
      norm_num
      ring
    have hlog : Int.log 10 (shown q) < 0 :=
      (Int.lt_zpow_iff_log_lt (by decide) hshown).mp (by simpa using hless)
    refine significant_of_multiple ?_ hmultiple
    rw [significantPlace_of_pos hshown]
    omega

section Plain

variable (hfinite : x.isFinite = true) (hplain : ¬NeedsPower x)

include hfinite hplain

theorem shown_lower : (10 : ℚ) ^ (-6 : ℤ) ≤ shown |x.toRat| := by
  have hpos := abs_pos.mpr (isPlain_of_not_needsPower hfinite hplain).toRat_ne_zero
  have hthreshold : ((10 ^ 10 : ℤ) - 1 / 2) * (10 : ℚ) ^ (-16 : ℤ) <
      Settings.exponentThreshold.toRat :=
    lt_of_lt_of_le (by norm_num) Settings.exponentThreshold_between.1
  have hlower := le_significant hpos 10 (10 ^ 10) (-16) (by decide) (by decide) le_rfl
    (hthreshold.trans_le (not_lt.mp fun hless => hplain (.inr hless)))
  have hpower : ((10 ^ 10 : ℤ) : ℚ) * (10 : ℚ) ^ (-16 : ℤ) = (10 : ℚ) ^ (-6 : ℤ) := by norm_num
  rw [hpower] at hlower
  rw [shown_of_pos hpos]
  generalize significant 10 |x.toRat| = value at hlower ⊢
  have hvalue : 0 ≤ value := le_trans (by positivity) hlower
  split
  · exact hlower
  · rw [truncated_of_nonneg hvalue, le_div_iff₀ (by positivity)]
    have hfloor : 1000 ≤ ⌊value * 10 ^ 9⌋₊ := by
      refine Nat.le_floor ?_
      norm_num at hlower ⊢
      linarith
    rw [show (10 : ℚ) ^ (-6 : ℤ) * 10 ^ 9 = 1000 by norm_num]
    exact_mod_cast hfloor

theorem shown_le : shown |x.toRat| ≤ 10 ^ 10 := by
  have hrange := isPlain_of_not_needsPower hfinite hplain
  have hpos := abs_pos.mpr hrange.toRat_ne_zero
  rcases shown_cases hpos with ⟨-, hequal⟩ | ⟨hsmall, -⟩
  · rw [hequal]
    refine (significant_between hpos 10 (by decide)).2.trans ?_
    exact zpow_le_zpow_right₀ (n := 10) (by norm_num) (by have := hrange.log_between.2; omega)
  · exact hsmall.le.trans (by norm_num)

theorem shown_upper (hreaches : ¬ReachesLimit x) : shown |x.toRat| ≤ 9999999999 := by
  have hrange := isPlain_of_not_needsPower hfinite hplain
  have hpos := abs_pos.mpr hrange.toRat_ne_zero
  have hless : |x.toRat| < 19999999999 / 2 :=
    not_le.mp fun hle => hreaches (.inr ⟨hle, by exact_mod_cast hrange.upper⟩)
  have hupper := significant_le hpos 10 9999999999 0 (by decide) (by decide) (by decide)
    (by norm_num; linarith)
  rw [zpow_zero, mul_one, Int.cast_ofNat] at hupper
  rcases shown_cases hpos with ⟨-, hequal⟩ | ⟨hsmall, -⟩
  · exact hequal ▸ hupper
  · exact hsmall.le.trans (by norm_num)

/-- Without a power of ten, the notation and the digits stay, too. -/
theorem plain_again (hreaches : ¬ReachesLimit x) (hw : IsNearest (shown |x.toRat|) w)
    (hnonneg : 0 ≤ w.toRat) : ¬NeedsPower w ∧ shown w.toRat = shown |x.toRat| := by
  have hpos := abs_pos.mpr (isPlain_of_not_needsPower hfinite hplain).toRat_ne_zero
  have hlower := shown_lower hfinite hplain
  have hshown : 0 < shown |x.toRat| := lt_of_lt_of_le (by positivity) hlower
  have hlog : -6 ≤ Int.log 10 (shown |x.toRat|) :=
    (Int.zpow_le_iff_le_log (by decide) hshown).mp hlower
  have hsame := hw.significant_eq hshown (show 0 < 10 by decide) (by decide)
    (significant_shown hpos hshown) (by rw [significantPlace_of_pos hshown]; omega)
  have hwLower : Settings.exponentThreshold.toRat ≤ w.toRat :=
    hw.le_toRat rfl (Settings.exponentThreshold_between.2.trans hlower)
  have hwUpper : w.toRat ≤ 9999999999 := by
    obtain ⟨y, hy, hvalue⟩ : ∃ y : Double, y.isFinite = true ∧ y.toRat = 9999999999 :=
      ⟨ofFraction false 9999999999 1, by decide +kernel, by decide +kernel⟩
    exact hvalue ▸ hw.toRat_le hy (hvalue ▸ shown_upper hfinite hplain hreaches)
  have hwPos : 0 < w.toRat := lt_of_lt_of_le
    (lt_of_lt_of_le (by norm_num) Settings.exponentThreshold_between.1) hwLower
  refine ⟨?_, ?_⟩
  · rw [NeedsPower, abs_of_nonneg hnonneg, not_or]
    exact ⟨not_le.mpr (hwUpper.trans_lt (by norm_num)), not_lt.mpr hwLower⟩
  · rw [shown_of_pos hwPos, hsame]
    split
    · rfl
    next hless =>
      rcases shown_cases hpos with ⟨hle, -⟩ | ⟨-, n, hn⟩
      · exact absurd hle hless
      · exact truncated_of_eq_natCast hn

end Plain

end Again

/-! ## The double that a display text stands for -/

/-- A written number is read as a double that is nearest to it, and has its sign. -/
theorem exists_isNearest_size {written : Written} (negative : Bool)
    (hrange : written.size ≤ (1797693134 : ℤ) * (10 : ℚ) ^ (299 : ℤ)) :
    (written.decimal negative).toDouble.isFinite = true ∧
      ∃ w, IsNearest written.size w ∧ 0 ≤ w.toRat ∧
        w.toRat = |(written.decimal negative).toDouble.toRat| := by
  have hfinite : (written.decimal negative).toDouble.isFinite = true := by
    obtain ⟨greatest, hgreatest, hvalue⟩ := exists_toRat_greatest
    refine Decimal.isFinite_toDouble hgreatest (hrange.trans ?_)
    rw [hvalue, Int.cast_ofNat]
    exact greatest_between.1.le
  obtain ⟨w, hw, hvalue⟩ := (Decimal.isNearest_toDouble hfinite).exists_abs
  rw [Decimal.abs_toRat] at hw
  exact ⟨hfinite, w, hw, hvalue ▸ abs_nonneg _, hvalue⟩

/-- A display text within the range stands for a finite double, and this is displayed as the same text
unless rounding has taken the number to a limit between the notations. -/
theorem exists_formatDouble_again {x : Double} (hfinite : x.isFinite = true) (hzero : x.toRat ≠ 0)
    (hrange : |x.toRat| ≤ rangeLimit) :
    ∃ (negative : Bool) (written : Written),
      formatDouble x =
        .ok (String.ofList ((if negative then ['-'] else []) ++ written.chars)) ∧
      (written.decimal negative).toDouble.isFinite = true ∧
      (¬ReachesLimit x → formatDouble (written.decimal negative).toDouble =
        .ok (String.ofList ((if negative then ['-'] else []) ++ written.chars))) := by
  have hpos := abs_pos.mpr hzero
  have hsignificant := significant_le_of_le_rangeLimit hpos hrange
  have hsign : ∀ written : Written, (written.decimal x.isNegative).toDouble.isNegative =
      x.isNegative := fun written => Decimal.isNegative_toDouble _
  by_cases hpower : NeedsPower x
  · obtain ⟨written, htext, hspec, hsize⟩ := exists_formatDouble_scientific hfinite hzero hpower
    obtain ⟨hwFinite, w, hw, hnonneg, hvalue⟩ :=
      exists_isNearest_size x.isNegative (hsize ▸ hsignificant)
    refine ⟨x.isNegative, written, htext, hwFinite, fun hreaches => ?_⟩
    rw [hsize] at hw
    obtain ⟨hwPower, hwSame⟩ := scientific_again hzero hpower hreaches hw hnonneg
    rw [NeedsPower, abs_of_nonneg hnonneg] at hwPower
    rw [hvalue] at hwPower hwSame
    have hwZero : (written.decimal x.isNegative).toDouble.toRat ≠ 0 := by
      intro hnone
      have hsignificantPos : 0 < significant 10 |x.toRat| := lt_of_lt_of_le (by positivity)
        (significant_between hpos 10 (by decide)).1
      rw [← hwSame, hnone, abs_zero, significant_zero] at hsignificantPos
      exact lt_irrefl 0 hsignificantPos
    obtain ⟨written', htext', hspec', hsize'⟩ :=
      exists_formatDouble_scientific hwFinite hwZero hwPower
    rw [htext', hspec'.eq_of_size_eq hspec (by rw [hsize', hwSame, hsize]), hsign]
  · obtain ⟨written, htext, hspec, -, hsize⟩ := exists_formatDouble_plain hfinite hpower
    obtain ⟨hwFinite, w, hw, hnonneg, hvalue⟩ :=
      exists_isNearest_size x.isNegative
        (hsize ▸ (shown_le hfinite hpower).trans (by decide +kernel))
    refine ⟨x.isNegative, written, htext, hwFinite, fun hreaches => ?_⟩
    rw [hsize] at hw
    obtain ⟨hwPower, hwSame⟩ := plain_again hfinite hpower hreaches hw hnonneg
    rw [NeedsPower, abs_of_nonneg hnonneg] at hwPower
    rw [hvalue] at hwPower hwSame
    obtain ⟨written', htext', hspec', -, hsize'⟩ := exists_formatDouble_plain hwFinite hwPower
    rw [htext', hspec'.eq_of_size_eq hspec (by rw [hsize', hwSame, hsize]), hsign]

end SciCalc.Display
