import SciCalc.Proofs.Display.Redisplay

/-! # Reading back what is displayed

The display text of a number stands for ten significant digits of it, and for nine decimals of a
number below one. It is read as the double nearest to this. So a number survives being displayed if it
was read from no more digits than that.
-/

namespace SciCalc.Display

open Double

/-- The number that the display text of a double other than zero stands for. -/
def displayed (x : Double) : ℚ :=
  if NeedsPower x then significant 10 x.toRat else shown x.toRat

theorem truncated_of_abs_eq_natCast {q : ℚ} {places n : ℕ} (hn : |q| * 10 ^ places = n) :
    truncated places q = q := by
  have hsame := truncated_of_eq_natCast hn
  rcases abs_cases q with ⟨hsize, -⟩ | ⟨hsize, -⟩
  · rwa [hsize] at hsame
  · rw [hsize, truncated_neg] at hsame
    exact neg_injective hsame

theorem displayed_neg (x : Double) : displayed x.neg = -displayed x := by
  have hsame : NeedsPower x.neg ↔ NeedsPower x := by
    rw [NeedsPower, NeedsPower, toRat_neg, abs_neg]
  simp only [displayed, hsame, toRat_neg, significant_neg, shown_neg]
  split <;> rfl

section Text

variable {x : Double} (hfinite : x.isFinite = true)

include hfinite

theorem abs_shown (hplain : ¬NeedsPower x) : |shown x.toRat| = shown |x.toRat| := by
  have hlower := shown_lower hfinite hplain
  rcases abs_cases x.toRat with ⟨hsize, -⟩ | ⟨hsize, -⟩
  · rw [hsize] at hlower ⊢
    exact abs_of_nonneg (le_trans (by positivity) hlower)
  · rw [hsize, shown_neg] at hlower ⊢
    exact abs_of_neg (neg_pos.mp (lt_of_lt_of_le (by positivity) hlower))

variable (hzero : x.toRat ≠ 0)

include hzero

theorem exists_formatDouble_displayed :
    ∃ written : Written,
      formatDouble x = .ok (String.ofList ((if x.isNegative then ['-'] else []) ++ written.chars)) ∧
      (written.decimal x.isNegative).toRat = displayed x := by
  rw [isNegative_eq hzero]
  by_cases hpower : NeedsPower x
  · obtain ⟨written, htext, -, hsize⟩ := exists_formatDouble_scientific hfinite hzero hpower
    rw [isNegative_eq hzero] at htext
    rw [displayed, if_pos hpower]
    exact ⟨written, htext, toRat_decimal_signed (significant_neg 10) hsize⟩
  · obtain ⟨written, htext, -, -, hsize⟩ := exists_formatDouble_plain hfinite hpower
    rw [isNegative_eq hzero] at htext
    rw [displayed, if_neg hpower]
    exact ⟨written, htext, toRat_decimal_signed shown_neg hsize⟩

/-- The ten digits of a double are neither beyond all doubles nor below all of them. -/
theorem significant_ten_between :
    (10 : ℚ) ^ (-324 : ℤ) ≤ significant 10 |x.toRat| ∧
      significant 10 |x.toRat| < (10 : ℚ) ^ (309 : ℤ) := by
  have hpos := abs_pos.mpr hzero
  constructor
  · have hlog : -324 ≤ Int.log 10 |x.toRat| :=
      (Int.zpow_le_iff_le_log (by decide) hpos).mp (zpow_le_abs_toRat hzero)
    exact (zpow_le_zpow_right₀ (by norm_num) hlog).trans
      (significant_between hpos 10 (by decide)).1
  · have hless : |x.toRat| < ((9999999999 : ℤ) + 1 / 2) * (10 : ℚ) ^ (299 : ℤ) := by
      refine (abs_toRat_le hfinite).trans_lt (greatest_between.2.trans_le ?_)
      rw [mul_right_comm]
      gcongr
      norm_num
    refine (significant_le hpos 10 9999999999 299 (by decide) (by decide) (by decide)
      hless).trans_lt ?_
    rw [show (309 : ℤ) = 10 + 299 by rfl, zpow_add₀ (by norm_num)]
    gcongr
    norm_num

theorem displayed_between :
    (10 : ℚ) ^ (-324 : ℤ) ≤ |displayed x| ∧ |displayed x| < (10 : ℚ) ^ (309 : ℤ) := by
  have hdigits := significant_ten_between hfinite hzero
  rw [displayed]
  split
  next hpower => rwa [abs_significant (by decide)]
  next hplain =>
    rw [abs_shown hfinite hplain]
    refine ⟨(zpow_le_zpow_right₀ (by norm_num) (by decide)).trans (shown_lower hfinite hplain), ?_⟩
    rcases shown_cases (abs_pos.mpr hzero) with ⟨-, hequal⟩ | ⟨hless, -⟩
    · rw [hequal]
      exact hdigits.2
    · exact hless.trans (one_lt_zpow₀ (by norm_num) (by decide))

/-- The display text is read as the double nearest to the number that it stands for. -/
theorem ofText?_formatDouble (negativeZero : Bool) {text : String}
    (htext : formatDouble x = .ok text) :
    Double.ofText? text = some (ofRat negativeZero (displayed x)) := by
  obtain ⟨written, hwritten, hvalue⟩ := exists_formatDouble_displayed hfinite hzero
  obtain rfl := Except.ok.inj (hwritten.symm.trans htext)
  obtain ⟨hlarge, hsmall⟩ := displayed_between hfinite hzero
  rw [← hvalue] at hlarge hsmall ⊢
  rw [← Decimal.toDouble_eq_ofRat hlarge hsmall negativeZero, Double.ofText?,
    Numeral.ofText?_written]
  rfl

end Text

/-! ## Few digits -/

section FewDigits

variable {d : Decimal} (hfinite : d.toDouble.isFinite = true)
  (hlarge : (10 : ℚ) ^ (-313 : ℤ) ≤ |d.toRat|) (hdigits : significant 10 d.toRat = d.toRat)

include hfinite hlarge hdigits

/-- Read as a double, a decimal of ten digits keeps its digits. -/
theorem significant_toDouble : significant 10 d.toDouble.toRat = d.toRat := by
  have hpos : 0 < |d.toRat| := lt_of_lt_of_le (by positivity) hlarge
  have hlog : -313 ≤ Int.log 10 |d.toRat| := (Int.zpow_le_iff_le_log (by decide) hpos).mp hlarge
  refine (Decimal.isNearest_toDouble hfinite).significant_eq_of_ne_zero (abs_pos.mp hpos)
    (by decide) (by decide) hdigits ?_
  rw [significantPlace]
  omega

theorem toRat_toDouble_ne_zero : d.toDouble.toRat ≠ 0 := by
  intro hnone
  have hsame := significant_toDouble hfinite hlarge hdigits
  rw [hnone, significant_zero] at hsame
  rw [← hsame, abs_zero] at hlarge
  exact absurd hlarge (not_le.mpr (by positivity))

/-- A number that was read from a decimal of ten digits survives being displayed. Between the limits
of the notation without a power of ten it must not have more than nine decimals if it is below one. -/
theorem ofRat_displayed_toDouble
    (hplaces : NeedsPower d.toDouble ∨ 1 ≤ |d.toRat| ∨ ∃ n : ℕ, |d.toRat| * 10 ^ 9 = n) :
    ofRat false (displayed d.toDouble) = d.toDouble := by
  have hsame := significant_toDouble hfinite hlarge hdigits
  have hvalue : displayed d.toDouble = d.toRat := by
    rw [displayed]
    split
    · exact hsame
    next hplain =>
      rw [shown, hsame]
      split
      · rfl
      next hless =>
        obtain ⟨n, hn⟩ := (hplaces.resolve_left hplain).resolve_left hless
        exact truncated_of_abs_eq_natCast hn
  rw [hvalue]
  exact (Decimal.toDouble_eq_ofRat ((zpow_le_zpow_right₀ (by norm_num) (by decide)).trans hlarge)
    (Decimal.isNearest_toDouble hfinite).abs_lt false).symm

end FewDigits

end SciCalc.Display
