import SciCalc.Proofs.Formula.Composition
import SciCalc.Proofs.Formula.Printing

/-! # A number at the start of a formula

The text of a finite double is one token, the double itself. An operator sign or an opening
parenthesis behind it ends it, whatever shape the text has. So the formula goes on as if the number
stood in parentheses: its minus belongs to it even in front of a power, and a multiplication is
understood in front of a parenthesis only.
-/

namespace SciCalc

namespace Parentheses

/-- A balanced text in front of another one does not change its verdict. -/
theorem validate_append_of_balanced {first : String} (hbalanced : Balanced first.toList)
    (hnests : NestsWithin Settings.greatestDepth first.toList) (second : String) :
    validate (first ++ second) = validate second := by
  have hfirst : depthFrom 0 first.toList = .ok 0 :=
    validate_eq_ok_iff_depth.mp (validate_eq_ok_iff.mpr ⟨hbalanced, hnests⟩)
  have hdepth : depth (first ++ second) = depth second := by
    rw [depth, String.toList_append, depthFrom_append, hfirst, bind_ok]
    rfl
  simp only [validate, hdepth]

end Parentheses

namespace Token

open Parentheses Formula

/-- The text begins with an operator sign or an opening parenthesis. -/
def ContinuesOperand (cs : List Char) : Prop :=
  ∃ first rest, cs = first :: rest ∧ (first = '(' ∨ first ∈ Lexeme.operatorSigns)

section ContinuesOperand

variable {cs : List Char} (hcontinues : ContinuesOperand cs)

include hcontinues

theorem ContinuesOperand.endsNumeral : Lexeme.EndsNumeral cs := by
  obtain ⟨first, rest, rfl, rfl | hsign⟩ := hcontinues
  · simp [Lexeme.EndsNumeral]
  · obtain ⟨sign, rfl⟩ := OperatorSign.exists_char_eq hsign
    exact Lexeme.endsNumeral_sign sign rest

theorem ContinuesOperand.exists_not_blank : ∃ c ∈ cs, Text.isBlank c = false := by
  obtain ⟨first, rest, rfl, hfirst⟩ := hcontinues
  refine ⟨first, List.mem_cons_self, ?_⟩
  rcases hfirst with rfl | hsign
  · decide
  · obtain ⟨sign, rfl⟩ := OperatorSign.exists_char_eq hsign
    cases sign <;> decide

/-- Such a text goes on alike behind a number and behind a closing parenthesis. -/
theorem ContinuesOperand.ofLexemes_eq (value : Double) (text : Option String) :
    ofLexemes (some (number value text)) (Lexeme.scan cs) =
      ofLexemes (some (paren false)) (Lexeme.scan cs) := by
  obtain ⟨first, rest, rfl, rfl | hsign⟩ := hcontinues
  · simp only [Lexeme.scan_opening, ofLexemes]
    rfl
  · obtain ⟨sign, rfl⟩ := OperatorSign.exists_char_eq hsign
    rw [Lexeme.scan_sign, ofLexemes_sign rfl, ofLexemes_sign rfl]

end ContinuesOperand

/-! ## Tokens -/

/-- The text of a finite double is one token. -/
theorem tokenize_toText (x : FiniteDouble) :
    tokenize x.1.toText = .ok [(printed x).token] := by
  have hvalid : validate x.1.toText = .ok () :=
    validate_eq_ok_iff.mpr ⟨(isFlat_toText x).balanced, (isFlat_toText x).nestsWithin _⟩
  rw [tokenize_of_not_blank (Prints.leaf x).exists_not_blank, hvalid, bind_ok,
    (becomes_toText x).ofLexemes_eq]

section Fragment

variable (x : FiniteDouble) {fragment : String} (hcontinues : ContinuesOperand fragment.toList)

/-- The tokens that a fragment adds behind an operand. -/
def continuation (fragment : String) : Except Fault (List Token) :=
  validate fragment >>= fun _ => ofLexemes (some (paren false)) (Lexeme.scan fragment.toList)

include hcontinues

theorem tokenize_toText_append :
    tokenize (x.1.toText ++ fragment) = ((printed x).token :: ·) <$> continuation fragment := by
  have hflat := isFlat_toText x
  have hblank : ∃ c ∈ (x.1.toText ++ fragment).toList, Text.isBlank c = false := by
    obtain ⟨c, hmem, hc⟩ := hcontinues.exists_not_blank
    exact ⟨c, by simp [hmem], hc⟩
  rw [tokenize_of_not_blank hblank,
    validate_append_of_balanced hflat.balanced (hflat.nestsWithin _), String.toList_append,
    ofLexemes_scan_toText x.2 expectsOperand_none hcontinues.endsNumeral,
    hcontinues.ofLexemes_eq, continuation, map_bind]
  rfl

theorem tokenize_enclosed_toText_append :
    tokenize ("(" ++ x.1.toText ++ ")" ++ fragment) =
      (paren true :: (printed x).token :: paren false :: ·) <$> continuation fragment := by
  have htext : ("(" ++ x.1.toText ++ ")").toList = enclose x.1.toText.toList := by
    simp [enclose]
  have hflat := isFlat_toText x
  have hbalanced : Balanced ("(" ++ x.1.toText ++ ")").toList := by
    rw [htext]
    exact hflat.balanced.enclose
  have hnests : NestsWithin Settings.greatestDepth ("(" ++ x.1.toText ++ ")").toList := by
    rw [htext]
    exact (hflat.nestsWithin 9).enclose hflat.balanced
  have hblank : ∃ c ∈ ("(" ++ x.1.toText ++ ")" ++ fragment).toList, Text.isBlank c = false := by
    obtain ⟨c, hmem, hc⟩ := hcontinues.exists_not_blank
    exact ⟨c, by simp [hmem], hc⟩
  rw [tokenize_of_not_blank hblank, validate_append_of_balanced hbalanced hnests,
    String.toList_append, htext, ofLexemes_scan_enclose (becomes_toText x).ofLexemes_eq,
    continuation, map_bind]
  rfl

end Fragment

/-- A number in parentheses is put in order as the number alone. -/
theorem toPostfix_enclosed_number (literal : Literal) (rest : List Token) :
    toPostfix (paren true :: literal.token :: paren false :: rest) =
      toPostfix (literal.token :: rest) :=
  postfixFrom_group (rfl : toPostfix [literal.token] = .ok [literal.token]) [] rest

end Token

namespace Formula

variable {α : Type} (arithmetic : Arithmetic α) (mode : AngleMode)

/-- In front of an operator sign or an opening parenthesis, the text of a number is like the
number in parentheses. -/
theorem evaluate_toText_append (x : FiniteDouble) {fragment : String}
    (hcontinues : Token.ContinuesOperand fragment.toList) :
    evaluate arithmetic mode (x.1.toText ++ fragment) =
      evaluate arithmetic mode ("(" ++ x.1.toText ++ ")" ++ fragment) := by
  simp only [evaluate, Token.tokenize_toText_append x hcontinues,
    Token.tokenize_enclosed_toText_append x hcontinues]
  cases Token.continuation fragment with
  | error fault => rfl
  | ok rest =>
      simp only [Except.map_ok, bind_ok, Token.toPostfix_enclosed_number]

/-- The text of a finite double has the double as its value. -/
theorem evaluate_toText (x : FiniteDouble) :
    evaluate Standard.arithmetic mode x.1.toText = .ok x.1 := by
  have hvalue := evaluate_prints (.leaf x) ((isFlat_toText x).nestsWithin 10) mode
  rwa [String.ofList_toList] at hvalue

end Formula

end SciCalc
