import SciCalc.Proofs.Formula.Acceptance
import SciCalc.Proofs.Formula.Faults

/-! # Numbers side by side

Between two numbers no multiplication is understood. They are two values where one is wanted, and
that is found out only at the end, by the values that are left over. So the numbers are refused
unless values are lacking elsewhere: as many as there are too many.
-/

namespace SciCalc.Formula

open Token

/-- A formula has a value only if it lacks an operand for each two numbers side by side. -/
theorem missing_eq_touching_of_evaluate {α : Type} {arithmetic : Arithmetic α} {mode : AngleMode}
    {formula : String} {tokens : List Token} {value : α}
    (htokens : tokenize formula = .ok tokens)
    (hvalue : evaluate arithmetic mode formula = .ok value) :
    missing false tokens = touching tokens := by
  obtain ⟨-, hcount⟩ := count_of_evaluate htokens hvalue
  have hbalance := countP_add_missing (settled_of_tokenize htokens).2
  omega

/-- Numbers side by side are an error of the calculation unless as many operands are missing. -/
theorem adjacent_numbers_refused {formula : String} {tokens : List Token}
    (htokens : tokenize formula = .ok tokens) (hmissing : missing false tokens ≠ touching tokens)
    (mode : AngleMode) :
    ∃ error, evaluateIn Standard.arithmetic (.text mode.name) formula =
      .error (.calculation error) := by
  rw [evaluateIn_text_name]
  refine (failsAsCalculation_evaluate readsDoubles_standard mode formula).exists_error ?_
  exact fun value hvalue => hmissing (missing_eq_touching_of_evaluate htokens hvalue)

/-- The point of a third part begins a number of its own. -/
theorem adjacent_numbers_refused_in_parens :
    (∃ tokens, tokenize "(1.2.3)+4" = .ok tokens ∧ ¬ NumbersApart tokens ∧
      missing false tokens ≠ touching tokens) ∧
    ∀ mode : AngleMode, ∃ error,
      evaluateIn Standard.arithmetic (.text mode.name) "(1.2.3)+4" =
        .error (.calculation error) := by
  have htokens : tokenize "(1.2.3)+4" = .ok [paren true, number (Double.ofRat false (6 / 5)) "1.2",
      number (Double.ofRat false (3 / 10)) ".3", paren false, OperatorSign.plus.token,
      (Literal.ofNat 4).token] := by decide +kernel
  exact ⟨⟨_, htokens, by decide, by decide⟩, adjacent_numbers_refused htokens (by decide)⟩

/-- Behind its operands an operator lacks one, and that makes up for the numbers side by side. -/
theorem adjacent_numbers_before_operator :
    ∃ formula tokens, tokenize formula = .ok tokens ∧ ¬ NumbersApart tokens ∧
      ∀ mode : AngleMode, evaluateIn Standard.arithmetic (.text mode.name) formula =
        .ok (Double.ofNat 5) := by
  refine ⟨"2 3 +", [(Literal.ofNat 2).token, (Literal.ofNat 3).token, OperatorSign.plus.token],
    by decide +kernel, by decide, fun mode => ?_⟩
  cases mode <;> decide +kernel

end SciCalc.Formula
