import SciCalc.Proofs.Display.Redisplay
import SciCalc.Proofs.Formula.SingleNumber

/-! # Displayed numbers in formulas

A displayed number is a formula of one token: the double that the text stands for, if there is one
within the range. Evaluated and displayed again, it gives the same text, unless rounding for the
display has taken it to a limit between the two notations.
-/

namespace SciCalc

namespace Token

/-- A written number with its sign is one token, the double that the text stands for, or is
refused. -/
theorem tokenize_written_eq (written : Written) (negative : Bool) :
    tokenize (String.ofList ((if negative then ['-'] else []) ++ written.chars)) =
      if (written.decimal negative).toDouble.isFinite then
        .ok [number (written.decimal negative).toDouble
          (some (String.ofList ((if negative then ['-'] else []) ++ written.chars)))]
      else failWith .invalidExpression ("Número fuera de rango: " ++
        String.ofList ((if negative then ['-'] else []) ++ written.chars)) := by
  rw [← written.chars_spelled, tokenize_spelled, Spelled.nearest, written.decimal_spelled]

end Token

namespace Display

open Double

/-- Ten digits close to the greatest double can be beyond all doubles. -/
theorem exists_formatDouble_beyond {x : Double} (hfinite : x.isFinite = true)
    (hbeyond : rangeLimit < |x.toRat|) :
    ∃ (negative : Bool) (written : Written),
      formatDouble x =
        .ok (String.ofList ((if negative then ['-'] else []) ++ written.chars)) ∧
      (written.decimal negative).toDouble.isFinite = false := by
  have hlarge : (10 : ℚ) ^ 10 ≤ |x.toRat| := le_trans (by decide +kernel) hbeyond.le
  have hpos : 0 < |x.toRat| := lt_of_lt_of_le (by positivity) hlarge
  obtain ⟨written, htext, -, hsize⟩ :=
    exists_formatDouble_scientific hfinite (abs_pos.mp hpos) (.inl hlarge)
  refine ⟨x.isNegative, written, htext, ?_⟩
  rw [← Bool.not_eq_true]
  intro hread
  have hlower := le_significant_of_rangeLimit_lt hbeyond
  rw [← hsize] at hlower
  have habs : |(written.decimal x.isNegative).toRat| = written.size := Decimal.abs_toRat _
  have hone : 1 ≤ written.size := le_trans (by
    rw [Int.cast_ofNat]
    exact one_le_mul_of_one_le_of_one_le (by norm_num) (one_le_zpow₀ (by norm_num) (by decide)))
    hlower
  have hupper := (Decimal.isNearest_toDouble hread).abs_mul_le (by
    rw [habs]
    exact (zpow_le_one_of_nonpos₀ (by norm_num) (by decide)).trans hone)
  rw [habs] at hupper
  have hscaled : ((1797693135 : ℤ) : ℚ) * (10 : ℚ) ^ (299 : ℤ) * (1 - (2 : ℚ) ^ (-53 : Int)) ≤
      written.size * (1 - (2 : ℚ) ^ (-53 : Int)) :=
    mul_le_mul_of_nonneg_right hlower (by norm_num)
  rw [Int.cast_ofNat] at hscaled
  exact absurd (hscaled.trans hupper) (not_le.mpr greatest_between.2)

/-- A displayed number is a formula of one finite number, which is displayed as the same text unless
rounding takes the number to a limit between the notations. Close to the greatest double it is
refused. -/
theorem tokenize_formatDouble {x : Double} (hfinite : x.isFinite = true) :
    (|x.toRat| ≤ rangeLimit →
      ∃ (text : String) (w : Double), formatDouble x = .ok text ∧
        Token.tokenize text = .ok [.number w (some text)] ∧ w.isFinite = true ∧
          (¬ReachesLimit x → formatDouble w = .ok text)) ∧
    (rangeLimit < |x.toRat| →
      ∃ text : String, formatDouble x = .ok text ∧
        Token.tokenize text =
          failWith .invalidExpression ("Número fuera de rango: " ++ text)) := by
  refine ⟨fun hrange => ?_, fun hbeyond => ?_⟩
  · by_cases hzero : x.toRat = 0
    · exact ⟨"0", zero false, formatDouble_of_zero hfinite hzero, by decide +kernel, rfl,
        fun _ => by decide +kernel⟩
    obtain ⟨negative, written, htext, hread, hagain⟩ :=
      exists_formatDouble_again hfinite hzero hrange
    refine ⟨_, _, htext, ?_, hread, hagain⟩
    rw [Token.tokenize_written_eq, if_pos hread]
  · obtain ⟨negative, written, htext, hread⟩ := exists_formatDouble_beyond hfinite hbeyond
    refine ⟨_, htext, ?_⟩
    rw [Token.tokenize_written_eq, hread, if_neg Bool.false_ne_true]

/-- An ordinary number, one that is rounded to a limit, and the greatest double. -/
theorem tokenize_formatDouble_greatest :
    (∃ (text : String) (w : Double), formatDouble (ofFraction true 2 3) = .ok text ∧
      Token.tokenize text = .ok [.number w (some text)] ∧ w.isFinite = true ∧
        formatDouble w = .ok text) ∧
    (∃ (text : String) (w : Double), formatDouble (ofFraction false 99999999999 10) = .ok text ∧
      Token.tokenize text = .ok [.number w (some text)] ∧ w.isFinite = true) ∧
    ∃ text : String, formatDouble (finite false 9007199254740991 greatestExponent (by decide)) =
        .ok text ∧
      Token.tokenize text = failWith .invalidExpression ("Número fuera de rango: " ++ text) := by
  obtain ⟨text, w, htext, hread, hfinite, hagain⟩ :=
    (tokenize_formatDouble (x := ofFraction true 2 3) (by decide +kernel)).1 (by decide +kernel)
  obtain ⟨text', w', htext', hread', hfinite', -⟩ :=
    (tokenize_formatDouble (x := ofFraction false 99999999999 10) (by decide +kernel)).1
      (by decide +kernel)
  exact ⟨⟨text, w, htext, hread, hfinite, hagain (by decide +kernel)⟩,
    ⟨text', w', htext', hread', hfinite'⟩,
    (tokenize_formatDouble (x := finite false 9007199254740991 greatestExponent (by decide)) rfl).2
      (by decide +kernel)⟩

/-- The text of the greatest double is refused. Rounded to ten thousand million, a number is displayed
without a power of ten and displayed again with one; rounded to ten to the minus six, it is displayed
with one and again without. -/
theorem greatest_not_read_back :
    (formatDouble (finite false 9007199254740991 greatestExponent (by decide)) =
        .ok "1.797693135e+308" ∧
      Token.tokenize "1.797693135e+308" =
        failWith .invalidExpression "Número fuera de rango: 1.797693135e+308") ∧
    (formatDouble (ofFraction false 99999999999 10) = .ok "10000000000" ∧
      Token.tokenize "10000000000" =
        .ok [.number (ofFraction false 10000000000 1) (some "10000000000")] ∧
      formatDouble (ofFraction false 10000000000 1) = .ok "1e+10") ∧
    formatDouble (ofFraction false 99999999997 (10 ^ 17)) = .ok "1e-6" ∧
      Token.tokenize "1e-6" = .ok [.number (ofFraction false 1 1000000) (some "1e-6")] ∧
      formatDouble (ofFraction false 1 1000000) = .ok "0.000001" := by
  decide +kernel

end Display

end SciCalc
