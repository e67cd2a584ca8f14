import SciCalc.Proofs.Display.TenDigits

/-! # How many digits are displayed

Whether a number is displayed with a power of ten is decided before it is rounded. So a number that
is still below ten thousand million, and is rounded to it, is displayed without a power of ten and
with eleven digits. All other numbers without a power of ten have at most ten.
-/

namespace SciCalc.Display

open Double Numeral

/-- How many digits a text has. -/
def digitCount (text : String) : ℕ := text.toList.countP Char.isDigit

theorem digitCount_signed {written : Written} (hpower : written.power = none) (negative : Bool) :
    digitCount (String.ofList ((if negative then ['-'] else []) ++ written.chars)) =
      written.whole.length + written.fraction.length := by
  have hsign : ((if negative then ['-'] else []) : List Char).countP Char.isDigit = 0 := by
    cases negative <;> rfl
  have hpoint : written.pointChars.countP Char.isDigit = written.fraction.length := by
    rw [Written.pointChars]
    split
    next hnone => rw [List.isEmpty_iff.mp hnone]; rfl
    next =>
      rw [List.countP_cons_of_neg (by decide)]
      exact List.countP_eq_length.mpr written.isDigit_of_mem_fraction
  rw [digitCount, String.toList_ofList, Written.chars, Written.powerChars, hpower, List.append_nil,
    List.countP_append, List.countP_append, hsign, hpoint, Nat.zero_add,
    List.countP_eq_length.mpr written.isDigit_of_mem_whole]

theorem significant_eq_of_le {q : ℚ} (hle : 19999999999 / 2 ≤ q) (hless : q < 10 ^ 10) :
    significant 10 q = 10 ^ 10 := by
  have hpos : 0 < q := lt_of_lt_of_le (by norm_num) hle
  have hlog : Int.log 10 q < 10 := (Int.lt_zpow_iff_log_lt (by decide) hpos).mp hless
  refine le_antisymm ?_ ?_
  · refine (significant_between hpos 10 (by decide)).2.trans ?_
    exact zpow_le_zpow_right₀ (n := 10) (by norm_num) (by omega)
  · rcases hle.eq_or_lt with rfl | hmore
    · decide +kernel
    · have hlower := le_significant hpos 10 (10 ^ 10) 0 (by decide) (by decide) le_rfl
        (by norm_num; linarith)
      norm_num at hlower ⊢
      exact hlower

/-- Ten thousand million, written without a power of ten. -/
def elevenDigits : Written where
  whole := "10000000000".toList
  fraction := []
  power := none
  whole_ne_nil := by decide
  isDigit_of_mem_whole := List.all_eq_true.mp (by decide)
  isDigit_of_mem_fraction := nofun

theorem isPlain_elevenDigits : elevenDigits.IsPlain where
  power := rfl
  whole := by decide
  fraction := by decide

theorem shown_lt {q : ℚ} (hpos : 0 < q) (hless : q < 19999999999 / 2) : shown q < 10 ^ 10 := by
  have hsignificant : significant 10 q < 10 ^ 10 := by
    have hupper := significant_le hpos 10 9999999999 0 (by decide) (by decide) (by decide)
      (by norm_num; linarith)
    norm_num at hupper ⊢
    linarith
  rw [shown_of_pos hpos]
  split
  · exact hsignificant
  · refine lt_of_le_of_lt (truncated_le ?_ 9) hsignificant
    exact le_trans (by positivity) (significant_between hpos 10 (by decide)).1

theorem shown_eq {q : ℚ} (hle : 19999999999 / 2 ≤ q) (hless : q < 10 ^ 10) :
    shown q = elevenDigits.size := by
  have hpos : 0 < q := lt_of_lt_of_le (by norm_num) hle
  rw [shown_of_pos hpos, significant_eq_of_le hle hless, if_pos (by norm_num)]
  decide +kernel

/-- A text without a power of ten has at most ten digits, but for the numbers that are rounded up to
ten thousand million. -/
theorem digitCount_le_of_plain {x : Double} (hfinite : x.isFinite = true) {text : String}
    (htext : formatDouble x = .ok text) (hmark : 'e' ∉ text.toList) :
    (|x.toRat| < 19999999999 / 2 → digitCount text ≤ 10) ∧
      (19999999999 / 2 ≤ |x.toRat| →
        text = String.ofList ((if x.toRat < 0 then ['-'] else []) ++ "10000000000".toList)) := by
  by_cases hzero : x.toRat = 0
  · obtain rfl := Except.ok.inj ((formatDouble_of_zero hfinite hzero).symm.trans htext)
    rw [hzero, abs_zero]
    exact ⟨fun _ => by decide, fun hlarge => absurd hlarge (by norm_num)⟩
  have hpos := abs_pos.mpr hzero
  by_cases hpower : NeedsPower x
  · obtain ⟨written, hwritten, hscientific, -⟩ :=
      exists_formatDouble_scientific hfinite hzero hpower
    obtain rfl := Except.ok.inj (hwritten.symm.trans htext)
    rw [String.toList_ofList] at hmark
    exact absurd (hscientific.mark_mem _) hmark
  · obtain ⟨written, hwritten, hplain, hfraction, hsize⟩ :=
      exists_formatDouble_plain hfinite hpower
    obtain rfl := Except.ok.inj (hwritten.symm.trans htext)
    rw [digitCount_signed hplain.power]
    refine ⟨fun hless => ?_, fun hlarge => ?_⟩
    · have hwhole := hplain.length_whole_le (show 0 < 10 by decide)
        (hsize ▸ shown_lt hpos hless)
      omega
    · have hupper := (isPlain_of_not_needsPower hfinite hpower).upper
      rw [hplain.eq_of_size_eq isPlain_elevenDigits
        (hsize.trans (shown_eq hlarge (by exact_mod_cast hupper)))]
      simp only [isNegative_eq hzero, decide_eq_true_eq]
      rfl

theorem digitCount_le_of_plain_two_thirds :
    ∃ text, formatDouble (ofFraction true 2 3) = .ok text ∧ digitCount text ≤ 10 := by
  have htext : formatDouble (ofFraction true 2 3) = .ok "-0.666666666" := by decide +kernel
  exact ⟨_, htext, (digitCount_le_of_plain (by decide +kernel) htext (by decide)).1
    (by decide +kernel)⟩

/-- The number is below ten thousand million, and rounded to it. -/
theorem digitCount_exceeds_ten :
    ∃ text, formatDouble (ofFraction false 99999999999 10) = .ok text ∧ 'e' ∉ text.toList ∧
      digitCount text = 11 := by
  have htext : formatDouble (ofFraction false 99999999999 10) = .ok "10000000000" := by
    decide +kernel
  exact ⟨_, htext, by decide, by decide⟩

end SciCalc.Display
