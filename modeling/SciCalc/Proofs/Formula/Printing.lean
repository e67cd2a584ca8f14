import SciCalc.Proofs.Formula.Meaning
import SciCalc.Proofs.Formula.Numerals

/-! # Printed trees

A tree of finite doubles is printed with the text of each number, with each function in front of
its argument in parentheses, and with parentheses around an operand wherever the signs bind or
group otherwise. More parentheses do no harm. The text of a tree has the value of the tree.
-/

namespace SciCalc.Formula

open Token Parentheses

/-! ## Where parentheses are needed -/

namespace OperatorSign

/-- How strongly the sign binds. -/
def strength : OperatorSign → Nat
  | plus | minus => 1
  | times | asterisk | obelus | slash => 2
  | caret => 3

/-- Whether a chain of signs as strong as this one groups from the right. -/
def groupsRight : OperatorSign → Bool
  | caret => true
  | _ => false

/-- Whether an operation needs parentheses as the left operand of the outer sign. -/
def needsParensLeft (outer inner : OperatorSign) : Bool :=
  inner.strength < outer.strength || (inner.strength == outer.strength && outer.groupsRight)

/-- Whether an operation needs parentheses as the right operand of the outer sign. -/
def needsParensRight (outer inner : OperatorSign) : Bool :=
  inner.strength < outer.strength || (inner.strength == outer.strength && !outer.groupsRight)

end OperatorSign

/-- A double that is a number and not an infinity. -/
abbrev FiniteDouble := { x : Double // x.isFinite = true }

/-- The texts of a tree. The sign is the one that stands outside of all parentheses, if there is
one. -/
inductive Prints : Tree FiniteDouble → List Char → Option OperatorSign → Prop where
  | leaf (x : FiniteDouble) : Prints (.leaf x) x.1.toText.toList none
  | apply (function : UnaryFunction) {argument : Tree FiniteDouble} {text : List Char}
      {outer : Option OperatorSign} (hargument : Prints argument text outer) :
      Prints (.apply function argument) (function.name.toList ++ enclose text) none
  | binary (sign : OperatorSign) {left right : Tree FiniteDouble}
      {leftText rightText : List Char} {leftOuter rightOuter : Option OperatorSign}
      (hleft : Prints left leftText leftOuter) (hright : Prints right rightText rightOuter)
      (hleftParens : ∀ inner ∈ leftOuter, sign.needsParensLeft inner = false)
      (hrightParens : ∀ inner ∈ rightOuter, sign.needsParensRight inner = false) :
      Prints (.binary sign left right) (leftText ++ sign.char :: rightText) (some sign)
  | enclose {tree : Tree FiniteDouble} {text : List Char} {outer : Option OperatorSign}
      (htree : Prints tree text outer) : Prints tree (Parentheses.enclose text) none

/-- The category of a text with the given sign outside of all parentheses. -/
def categoryOf : Option OperatorSign → Category
  | none => .primary
  | some sign => sign.category

theorem leftCategory_le_categoryOf {sign : OperatorSign} {outer : Option OperatorSign}
    (hparens : ∀ inner ∈ outer, sign.needsParensLeft inner = false) :
    sign.leftCategory.binding ≤ (categoryOf outer).binding := by
  cases outer with
  | none => cases sign <;> decide
  | some inner =>
      have hbare := hparens inner rfl
      revert hbare
      cases sign <;> cases inner <;> decide

theorem rightCategory_le_categoryOf {sign : OperatorSign} {outer : Option OperatorSign}
    (hparens : ∀ inner ∈ outer, sign.needsParensRight inner = false) :
    sign.rightCategory.binding ≤ (categoryOf outer).binding := by
  cases outer with
  | none => cases sign <;> decide
  | some inner =>
      have hbare := hparens inner rfl
      revert hbare
      cases sign <;> cases inner <;> decide

/-- Every tree has a text: it is enough to put every operand in parentheses. -/
theorem exists_prints (tree : Tree FiniteDouble) : ∃ text outer, Prints tree text outer := by
  induction tree with
  | leaf x => exact ⟨_, _, .leaf x⟩
  | binary sign left right ihleft ihright =>
      obtain ⟨leftText, leftOuter, hleft⟩ := ihleft
      obtain ⟨rightText, rightOuter, hright⟩ := ihright
      exact ⟨_, _, .binary sign hleft.enclose hright.enclose (by simp) (by simp)⟩
  | apply function argument ih =>
      obtain ⟨text, outer, hargument⟩ := ih
      exact ⟨_, _, .apply function hargument⟩

/-- A number as a literal that is written with its own text. -/
def printed (x : FiniteDouble) : Literal := ⟨x.1, some x.1.toText⟩

/-! ## Tokens of a printed tree -/

/-- The text becomes the tokens wherever an operand is expected, and an operand ends with them. -/
def Becomes (text : List Char) (tokens : List Token) : Prop :=
  ∃ last, signMayFollow (some last) = false ∧
    ∀ {previous : Option Token} {rest : List Char}, ExpectsOperand previous →
      Lexeme.EndsNumeral rest →
      ofLexemes previous (Lexeme.scan (text ++ rest)) =
        (tokens ++ ·) <$> ofLexemes (some last) (Lexeme.scan rest)

section Becomes

variable {text : List Char} {tokens : List Token} (hbecomes : Becomes text tokens)

theorem becomes_toText (x : FiniteDouble) : Becomes x.1.toText.toList [(printed x).token] :=
  ⟨(printed x).token, rfl, fun hprevious hends => ofLexemes_scan_toText x.2 hprevious hends⟩

include hbecomes

/-- The start of a formula is a place where an operand is expected, and its end ends one. -/
theorem Becomes.ofLexemes_eq : ofLexemes none (Lexeme.scan text) = .ok tokens := by
  obtain ⟨last, -, hread⟩ := hbecomes
  simpa [ofLexemes] using hread expectsOperand_none Lexeme.endsNumeral_nil

theorem Becomes.ofLexemes_scan_enclose {previous : Option Token}
    (htimes : impliesTimes previous (paren true) = false) (rest : List Char) :
    ofLexemes previous (Lexeme.scan (Parentheses.enclose text ++ rest)) =
      ((paren true :: (tokens ++ [paren false])) ++ ·) <$>
        ofLexemes (some (paren false)) (Lexeme.scan rest) := by
  rw [Token.ofLexemes_scan_enclose hbecomes.ofLexemes_eq]
  simp only [placeAfter_of_not_impliesTimes htimes, List.cons_append, List.append_assoc,
    List.nil_append]

theorem Becomes.enclose :
    Becomes (Parentheses.enclose text) (paren true :: (tokens ++ [paren false])) :=
  ⟨paren false, rfl, fun hprevious _ => hbecomes.ofLexemes_scan_enclose (hprevious.2 _) _⟩

theorem Becomes.apply (function : UnaryFunction) :
    Becomes (function.name.toList ++ Parentheses.enclose text)
      (.function function.name :: paren true :: (tokens ++ [paren false])) := by
  refine ⟨paren false, rfl, fun {previous rest} hprevious _ => ?_⟩
  have hplace : placeAfter previous (.function function.name) =
      (.function function.name :: ·) :=
    funext (placeAfter_of_not_impliesTimes (hprevious.2 _))
  have hargument := hbecomes.ofLexemes_scan_enclose
    (impliesTimes_after_function function.name (paren true)) rest
  simp only [Parentheses.enclose, List.cons_append, List.append_assoc, Lexeme.scan_opening]
    at hargument ⊢
  rw [Lexeme.scan_name, ofLexemes_word, hplace, hargument, Functor.map_map]

end Becomes

theorem Becomes.binary (sign : OperatorSign) {leftText rightText : List Char}
    {leftTokens rightTokens : List Token} (hleft : Becomes leftText leftTokens)
    (hright : Becomes rightText rightTokens) :
    Becomes (leftText ++ sign.char :: rightText) (leftTokens ++ sign.token :: rightTokens) := by
  obtain ⟨leftLast, hleftLast, hleftRead⟩ := hleft
  obtain ⟨rightLast, hrightLast, hrightRead⟩ := hright
  refine ⟨rightLast, hrightLast, fun {previous rest} hprevious hends => ?_⟩
  have hsecond := hrightRead (expectsOperand_sign sign) hends
  rw [List.append_assoc, List.cons_append,
    hleftRead hprevious (Lexeme.endsNumeral_sign sign _), Lexeme.scan_sign,
    ofLexemes_sign hleftLast, hsecond]
  simp only [Functor.map_map, List.append_assoc, List.cons_append]

section Prints

variable {tree : Tree FiniteDouble} {text : List Char} {outer : Option OperatorSign}

/-- The tokens of a printed tree derive from the grammar, and the derivation builds the tree. -/
theorem Prints.exists_derives (hprints : Prints tree text outer) :
    ∃ tokens, Becomes text tokens ∧ Derives (categoryOf outer) tokens (tree.map printed) := by
  induction hprints with
  | leaf x => exact ⟨_, becomes_toText x, .number (printed x)⟩
  | apply function hargument ih =>
      obtain ⟨tokens, hbecomes, hderives⟩ := ih
      exact ⟨_, hbecomes.apply function,
        .apply function (.parens (hderives.weaken (by cases categoryOf _ <;> decide)))⟩
  | binary sign hleft hright hleftParens hrightParens ihleft ihright =>
      obtain ⟨leftTokens, hleftBecomes, hleftDerives⟩ := ihleft
      obtain ⟨rightTokens, hrightBecomes, hrightDerives⟩ := ihright
      exact ⟨_, hleftBecomes.binary sign hrightBecomes,
        .binary sign (hleftDerives.weaken (leftCategory_le_categoryOf hleftParens))
          (hrightDerives.weaken (rightCategory_le_categoryOf hrightParens))⟩
  | enclose htree ih =>
      obtain ⟨tokens, hbecomes, hderives⟩ := ih
      exact ⟨_, hbecomes.enclose, .parens (hderives.weaken (by cases categoryOf _ <;> decide))⟩

/-! ## The value of a printed tree -/

theorem isFlat_toText (x : FiniteDouble) : IsFlat x.1.toText.toList := by
  obtain ⟨written, htext, -⟩ := Double.exists_written x.2
  have hnumeric := written.mem_numericChars_of_signed x.1.isNegative
  rw [htext, String.toList_ofList]
  exact ⟨fun hmem => absurd (hnumeric _ hmem) (by decide),
    fun hmem => absurd (hnumeric _ hmem) (by decide)⟩

theorem Prints.balanced (hprints : Prints tree text outer) : Balanced text := by
  induction hprints with
  | leaf x => exact (isFlat_toText x).balanced
  | apply function hargument ih => exact (isFlat_name function).balanced.append ih.enclose
  | binary sign hleft hright hleftParens hrightParens ihleft ihright =>
      exact ihleft.append ((isFlat_sign sign).balanced.append ihright)
  | enclose htree ih => exact ih.enclose

theorem Prints.exists_not_blank (hprints : Prints tree text outer) :
    ∃ c ∈ text, Text.isBlank c = false := by
  cases hprints with
  | leaf x =>
      obtain ⟨written, htext, -⟩ := Double.exists_written x.2
      obtain ⟨first, rest, hfirst, hchars⟩ := written.exists_chars_eq_cons
      exact ⟨first, by simp [htext, hchars],
        isBlank_of_numeric (mem_numericChars_of_isDigit hfirst)⟩
  | apply function hargument => exact ⟨'(', by simp [Parentheses.enclose], by decide⟩
  | binary sign hleft hright hleftParens hrightParens =>
      exact ⟨sign.char, by simp, by cases sign <;> decide⟩
  | enclose htree => exact ⟨'(', by simp [Parentheses.enclose], by decide⟩

theorem Prints.tokenize_eq (hprints : Prints tree text outer) (hnests : NestsWithin 10 text) :
    ∃ tokens, tokenize (String.ofList text) = .ok tokens ∧
      Derives .expression tokens (tree.map printed) := by
  obtain ⟨tokens, hbecomes, hderives⟩ := hprints.exists_derives
  have hnotBlank : ∃ c ∈ (String.ofList text).toList, Text.isBlank c = false := by
    simpa using hprints.exists_not_blank
  have hvalid : validate (String.ofList text) = .ok () := by
    rw [validate_eq_ok_iff, String.toList_ofList]
    exact ⟨hprints.balanced, hnests⟩
  refine ⟨tokens, ?_, hderives.weaken (by cases categoryOf outer <;> decide)⟩
  rw [tokenize_of_not_blank hnotBlank, hvalid, bind_ok, String.toList_ofList,
    hbecomes.ofLexemes_eq]

theorem read_printed (x : FiniteDouble) : (printed x).read Standard.arithmetic = .ok x.1 := by
  simp [printed, Literal.read, Standard.arithmetic, Standard.read, Double.ofText?_toText x.2]

theorem evaluate_prints (hprints : Prints tree text outer) (hnests : NestsWithin 10 text)
    (mode : AngleMode) :
    evaluate Standard.arithmetic mode (String.ofList text) =
      tree.value Standard.arithmetic mode (fun x => .ok x.1) := by
  obtain ⟨tokens, htokens, hderives⟩ := hprints.tokenize_eq hnests
  rw [evaluate_of_derives Standard.arithmetic mode htokens hderives, Tree.value_map]
  simp only [read_printed]

end Prints

/-- A printed tree means itself: its text has the value of the tree, or fails as the tree does.
In particular an operation on the texts of two doubles is the operation on the doubles. -/
theorem print_then_evaluate :
    (∀ {tree : Tree FiniteDouble} {text : List Char} {outer : Option OperatorSign},
      Prints tree text outer → NestsWithin 10 text → ∀ mode : AngleMode,
        evaluateIn Standard.arithmetic (.text mode.name) (String.ofList text) =
          tree.value Standard.arithmetic mode (fun x => .ok x.1)) ∧
    ∀ (left right : FiniteDouble) (sign : OperatorSign) (mode : AngleMode),
      evaluateIn Standard.arithmetic (.text mode.name)
          (left.1.toText ++ String.singleton sign.char ++ right.1.toText) =
        ofCalculation (Standard.binary sign.operation left.1 right.1) := by
  simp only [evaluateIn_text_name]
  refine ⟨evaluate_prints, fun left right sign mode => ?_⟩
  have hprints := Prints.binary sign (.leaf left) (.leaf right) (by simp) (by simp)
  have hflat : IsFlat (left.1.toText.toList ++ sign.char :: right.1.toText.toList) :=
    (isFlat_toText left).append ((isFlat_sign sign).append (isFlat_toText right))
  have htext : left.1.toText ++ String.singleton sign.char ++ right.1.toText =
      String.ofList (left.1.toText.toList ++ sign.char :: right.1.toText.toList) := by
    simp [← String.toList_inj]
  rw [htext, evaluate_prints hprints (hflat.nestsWithin 10) mode]
  rfl

/-- The minus of an operand is told from the operator before it, and the minus of an exponent
from both. -/
theorem print_then_evaluate_signed :
    Prints (.binary .asterisk
        (.binary .minus (.leaf ⟨.ofInt 1, by decide⟩) (.leaf ⟨.ofInt (-2), by decide⟩))
        (.leaf ⟨.ofFraction false 1 100000, by decide +kernel⟩))
      "(1.0--2.0)*1e-05".toList (some .asterisk) ∧
    ∀ mode : AngleMode, evaluateIn Standard.arithmetic (.text mode.name) "(1.0--2.0)*1e-05" =
      .ok ((Double.ofInt 3).mul (.ofFraction false 1 100000)) := by
  have hprints : Prints (.binary .asterisk
        (.binary .minus (.leaf ⟨.ofInt 1, by decide⟩) (.leaf ⟨.ofInt (-2), by decide⟩))
        (.leaf ⟨.ofFraction false 1 100000, by decide +kernel⟩))
      "(1.0--2.0)*1e-05".toList (some .asterisk) := by
    have hdifference := Prints.binary .minus (.leaf ⟨.ofInt 1, by decide⟩)
      (.leaf ⟨.ofInt (-2), by decide⟩) (by simp) (by simp)
    have hproduct := Prints.binary .asterisk hdifference.enclose
      (.leaf ⟨.ofFraction false 1 100000, by decide +kernel⟩) (by simp) (by simp)
    have htext : enclose ((Double.ofInt 1).toText.toList ++
          OperatorSign.minus.char :: (Double.ofInt (-2)).toText.toList) ++
        OperatorSign.asterisk.char :: (Double.ofFraction false 1 100000).toText.toList =
          "(1.0--2.0)*1e-05".toList := by decide +kernel
    rwa [htext] at hproduct
  refine ⟨hprints, fun mode => ?_⟩
  have hvalue := print_then_evaluate.1 hprints (by decide +kernel) mode
  rw [String.ofList_toList] at hvalue
  rw [hvalue]
  cases mode <;> decide +kernel

end SciCalc.Formula
