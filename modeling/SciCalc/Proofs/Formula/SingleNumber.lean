import SciCalc.Proofs.Formula.Meaning
import SciCalc.Proofs.Formula.Respacing

/-! # Formulas of one number

A number that is spelled out, with or without a minus, is a formula of one token. Within the range
the token, and the value of the formula in doubles, is what the text is read as by itself; beyond it
the formula is refused as a whole.
-/

namespace SciCalc

namespace Token

open Parentheses

variable (spelled : Spelled) (negative : Bool)

theorem isFlat_signed : IsFlat ((if negative then ['-'] else []) ++ spelled.chars) := by
  have hnumeric := spelled.mem_numericChars_of_signed negative
  exact ⟨fun hmem => absurd (hnumeric _ hmem) (by decide),
    fun hmem => absurd (hnumeric _ hmem) (by decide)⟩

theorem ofLexemes_scan_alone :
    ofLexemes none (Lexeme.scan ((if negative then ['-'] else []) ++ spelled.chars)) =
      (fun token => [token]) <$>
        ofNumeral (String.ofList ((if negative then ['-'] else []) ++ spelled.chars)) := by
  have hscan : Lexeme.scan spelled.chars = [.numeral spelled.chars] :=
    (Lexeme.Regular.numeral spelled).scan_chars
  cases negative with
  | true =>
      have hminus : Lexeme.scan ('-' :: spelled.chars) =
          [.operator '-', .numeral spelled.chars] :=
        (Lexeme.scan_sign .minus spelled.chars).trans (congrArg _ hscan)
      simp only [if_true, List.cons_append, List.nil_append]
      rw [hminus, ofLexemes.eq_2, if_pos (show signMayFollow none = true from rfl)]
      cases ofNumeral (String.ofList ('-' :: spelled.chars)) <;> rfl
  | false =>
      simp only [Bool.false_eq_true, if_false, List.nil_append]
      rw [hscan, ofLexemes.eq_3]
      cases ofNumeral (String.ofList spelled.chars) <;> rfl

/-- A number with its sign is one token, the double that the text stands for, or is refused. -/
theorem tokenize_spelled :
    tokenize (String.ofList ((if negative then ['-'] else []) ++ spelled.chars)) =
      if (spelled.nearest negative).isFinite then
        .ok [number (spelled.nearest negative)
          (some (String.ofList ((if negative then ['-'] else []) ++ spelled.chars)))]
      else failWith .invalidExpression ("Número fuera de rango: " ++
        String.ofList ((if negative then ['-'] else []) ++ spelled.chars)) := by
  have hflat := isFlat_signed spelled negative
  have hvalid : validate (String.ofList ((if negative then ['-'] else []) ++ spelled.chars)) =
      .ok () := by
    rw [validate_eq_ok_iff, String.toList_ofList]
    exact ⟨hflat.balanced, hflat.nestsWithin _⟩
  obtain ⟨first, rest, hfirst, hchars⟩ := spelled.exists_chars_eq_cons
  have hblank : ∃ c ∈ (String.ofList ((if negative then ['-'] else []) ++ spelled.chars)).toList,
      Text.isBlank c = false := by
    refine ⟨first, ?_, ?_⟩
    · rw [String.toList_ofList, hchars]
      exact List.mem_append_right _ List.mem_cons_self
    · rcases hfirst with hdigit | rfl
      · exact isBlank_of_numeric (mem_numericChars_of_isDigit hdigit)
      · decide
  rw [tokenize_of_not_blank hblank, hvalid, bind_ok, String.toList_ofList, ofLexemes_scan_alone,
    ofNumeral_spelled, ← spelled.isFinite_nearest negative]
  cases (spelled.nearest negative).isFinite <;> rfl

end Token

namespace Formula

/-- The value of a formula of one number is the double that its text is read as. -/
theorem evaluate_of_number {text : String} {value : Double} (mode : AngleMode)
    (htokens : Token.tokenize text = .ok [.number value (some text)])
    (hread : Double.ofText? text = some value) :
    evaluate Standard.arithmetic mode text = .ok value := by
  have hordered : Token.toPostfix [.number value (some text)] = .ok [.number value (some text)] :=
    rfl
  rw [evaluate_of_tokenize Standard.arithmetic mode htokens, hordered, bind_ok]
  simp only [evaluatePostfix, run, step, Standard.arithmetic, Standard.read, hread]
  rfl

end Formula

end SciCalc
