import SciCalc.Proofs.Formula.Meaning
import SciCalc.Proofs.Formula.Tokenizing

/-! # Formulas inside formulas

A formula that has a value keeps it in parentheses, whether or not it follows the infix grammar.
Each stage treats what stands in parentheses as it treats the whole text: the opening
parenthesis is like the start of the text, the tokens that wait below it are not put out, and
the values that lie below on the stack are not looked at.
-/

namespace SciCalc.Formula

open Token Parentheses

/-! ## Waiting tokens -/

theorem splitFunction_append_opening (stack below : List Token) :
    splitFunction (stack ++ paren true :: below) =
      ((splitFunction stack).1, (splitFunction stack).2 ++ paren true :: below) := by
  cases stack with
  | nil => rfl
  | cons top stack => cases top <;> rfl

/-- What stands in parentheses is put in order as if it stood alone; then the function in front
of the parentheses is put out. -/
theorem postfixFrom_enclosed {stack tokens ordered : List Token}
    (hordered : postfixFrom stack tokens = .ok ordered) (below rest : List Token) :
    postfixFrom (stack ++ paren true :: below) (tokens ++ paren false :: rest) =
      (ordered ++ (splitFunction below).1 ++ ·) <$>
        postfixFrom (splitFunction below).2 rest := by
  have hcloses : (!isOpening (paren true)) = false := rfl
  induction tokens generalizing stack ordered with
  | nil =>
      simp only [postfixFrom] at hordered
      split at hordered
      · simp at hordered
      next hopening =>
        obtain rfl : stack = ordered := by simpa using hordered
        have hwaiting : ∀ token ∈ stack, (!isOpening token) = true := by simpa using hopening
        simp only [List.nil_append, postfixFrom, List.dropWhile_append_of_pos hwaiting,
          List.takeWhile_append_of_pos hwaiting, List.takeWhile_cons, List.dropWhile_cons,
          hcloses, Bool.false_eq_true, if_false, List.append_nil]
  | cons token tokens ih =>
      cases token with
      | number value text =>
          obtain ⟨tail, htail, rfl⟩ := map_eq_ok_iff.mp hordered
          simp only [List.cons_append, postfixFrom, ih htail, Functor.map_map]
      | function name => exact ih hordered
      | operator symbol precedence =>
          obtain ⟨tail, htail, rfl⟩ := map_eq_ok_iff.mp hordered
          have hyields : yieldsTo symbol precedence (paren true) = false := rfl
          have hread := ih htail
          rw [List.cons_append] at hread
          simp only [List.cons_append, postfixFrom, takeWhile_append_cons hyields,
            dropWhile_append_cons hyields, hread, Functor.map_map, List.append_assoc]
      | paren isOpen =>
          cases isOpen with
          | true => exact ih hordered
          | false =>
              simp only [postfixFrom] at hordered
              split at hordered
              · simp at hordered
              next opening outer houter =>
                -- The partner waits above the outer parenthesis, which stays where it is.
                obtain ⟨tail, htail, rfl⟩ := map_eq_ok_iff.mp hordered
                have hread := ih htail
                simp only [List.cons_append, postfixFrom]
                rw [takeWhile_append_cons (p := (!isOpening ·)) hcloses,
                  dropWhile_append_cons (p := (!isOpening ·)) hcloses, houter]
                simp only [List.cons_append, splitFunction_append_opening, hread,
                  Functor.map_map, List.append_assoc]

theorem postfixFrom_group {tokens ordered : List Token}
    (hordered : toPostfix tokens = .ok ordered) (below rest : List Token) :
    postfixFrom below (paren true :: (tokens ++ paren false :: rest)) =
      (ordered ++ (splitFunction below).1 ++ ·) <$> postfixFrom (splitFunction below).2 rest :=
  postfixFrom_enclosed hordered below rest

/-! ## Stages of an evaluation -/

/-- The stages of the evaluation of a text that has a value. -/
structure Succeeds {α : Type} (arithmetic : Arithmetic α) (mode : AngleMode) (cs : List Char)
    (tokens ordered : List Token) (value : α) : Prop where
  balanced : Balanced cs
  tokens_eq : ofLexemes none (Lexeme.scan cs) = .ok tokens
  ordered_eq : toPostfix tokens = .ok ordered
  run_eq : run arithmetic mode [] ordered = .ok [value]

variable {α : Type} {arithmetic : Arithmetic α} {mode : AngleMode}

theorem exists_succeeds_of_evaluate {formula : String} {value : α}
    (hvalue : evaluate arithmetic mode formula = .ok value) :
    ∃ tokens ordered, Succeeds arithmetic mode formula.toList tokens ordered value := by
  simp only [evaluate, bind_eq_ok_iff] at hvalue
  obtain ⟨tokens, htokens, ordered, hordered, hresult⟩ := hvalue
  obtain ⟨stack, hrun, hsingle⟩ := bind_eq_ok_iff.mp hresult
  obtain rfl := single_eq_ok_iff.mp hsingle
  unfold tokenize at htokens
  split at htokens
  · simp at htokens
  · obtain ⟨⟨⟩, hvalid, hlexemes⟩ := bind_eq_ok_iff.mp htokens
    exact ⟨tokens, ordered, (validate_eq_ok_iff.mp hvalid).1, hlexemes, hordered, hrun⟩

/-- The value of a text with a parenthesis from what its stages give. -/
theorem evaluate_of_stages {formula : String} {tokens ordered : List Token}
    (hparen : '(' ∈ formula.toList) (hvalid : validate formula = .ok ())
    (htokens : ofLexemes none (Lexeme.scan formula.toList) = .ok tokens)
    (hordered : toPostfix tokens = .ok ordered) :
    evaluate arithmetic mode formula = run arithmetic mode [] ordered >>= single := by
  have hnotBlank : ∃ c ∈ formula.toList, Text.isBlank c = false := ⟨'(', hparen, by decide⟩
  simp only [evaluate, tokenize_of_not_blank hnotBlank, hvalid, htokens, hordered, bind_ok,
    evaluatePostfix]

/-! ## Compound formulas -/

section Compound

variable {firstTokens secondTokens firstOrdered secondOrdered : List Token}

theorem toPostfix_group (hfirst : toPostfix firstTokens = .ok firstOrdered) :
    toPostfix (paren true :: (firstTokens ++ [paren false])) = .ok firstOrdered := by
  rw [toPostfix, postfixFrom_group hfirst]
  simp [splitFunction, postfixFrom]

theorem toPostfix_function_group (name : String)
    (hfirst : toPostfix firstTokens = .ok firstOrdered) :
    toPostfix (function name :: paren true :: (firstTokens ++ [paren false])) =
      .ok (firstOrdered ++ [function name]) := by
  rw [toPostfix, postfixFrom, postfixFrom_group hfirst]
  simp [splitFunction, postfixFrom]

theorem toPostfix_group_sign_group (sign : OperatorSign)
    (hfirst : toPostfix firstTokens = .ok firstOrdered)
    (hsecond : toPostfix secondTokens = .ok secondOrdered) :
    toPostfix (paren true :: (firstTokens ++ paren false :: sign.token :: paren true ::
        (secondTokens ++ [paren false]))) =
      .ok (firstOrdered ++ (secondOrdered ++ [sign.token])) := by
  rw [toPostfix, postfixFrom_group hfirst]
  change _ <$> postfixFrom [] _ = _
  rw [postfixFrom_operator_of_holds (holds_nil _), postfixFrom_group hsecond]
  simp [splitFunction, postfixFrom, OperatorSign.token, ofSign, isOpening]

end Compound

/-- The check of a text that begins with a formula in parentheses, a text without parentheses in
front of them, and goes on balanced. -/
theorem validate_of_enclose {formula : String} {start : List Char} (hstart : IsFlat start)
    {cs : List Char} (rest : List Char) (hformula : formula.toList = start ++ (enclose cs ++ rest))
    (hcs : Balanced cs) (hcsNests : NestsWithin 9 cs) (hrest : Balanced rest)
    (hrestNests : NestsWithin 10 rest) : validate formula = .ok () := by
  rw [validate_eq_ok_iff, hformula]
  exact ⟨hstart.balanced.append (hcs.enclose.append hrest),
    .append hstart.balanced (hstart.nestsWithin _)
      (.append hcs.enclose (hcsNests.enclose hcs) hrestNests)⟩

/-- One more operation on the value of a list in postfix order. -/
theorem run_append_function {ordered : List Token} {value : α}
    (hrun : run arithmetic mode [] ordered = .ok [value]) (function : UnaryFunction) :
    run arithmetic mode [] (ordered ++ [.function function.name]) >>= single =
      ofCalculation (arithmetic.unary mode function value) := by
  rw [run_append, hrun, bind_ok, run_cons, step_function]
  cases ofCalculation (arithmetic.unary mode function value) <;> rfl

/-- An operation on the values of two lists in postfix order. -/
theorem run_append_sign {firstOrdered secondOrdered : List Token} {firstValue secondValue : α}
    (hfirst : run arithmetic mode [] firstOrdered = .ok [firstValue])
    (hsecond : run arithmetic mode [] secondOrdered = .ok [secondValue]) (sign : OperatorSign) :
    run arithmetic mode [] (firstOrdered ++ (secondOrdered ++ [sign.token])) >>= single =
      ofCalculation (arithmetic.binary sign.operation firstValue secondValue) := by
  have hbelow := run_append_below arithmetic mode hsecond [firstValue]
  rw [List.nil_append, List.singleton_append] at hbelow
  rw [run_append, hfirst, bind_ok, run_append, hbelow, bind_ok, run_cons, step_operatorSign]
  cases ofCalculation (arithmetic.binary sign.operation firstValue secondValue) <;> rfl

section Succeeds

variable {formula : String} {first second : List Char}
variable {firstTokens firstOrdered secondTokens secondOrdered : List Token}
variable {firstValue secondValue : α}
variable (hfirst : Succeeds arithmetic mode first firstTokens firstOrdered firstValue)
variable (hsecond : Succeeds arithmetic mode second secondTokens secondOrdered secondValue)
variable (hfirstNests : NestsWithin 9 first) (hsecondNests : NestsWithin 9 second)

include hfirst hfirstNests

theorem evaluate_enclose (hformula : formula.toList = enclose first) :
    evaluate arithmetic mode formula = .ok firstValue := by
  have hvalid : validate formula = .ok () :=
    validate_of_enclose isFlat_nil [] (by simpa using hformula) hfirst.balanced hfirstNests
      isFlat_nil.balanced (isFlat_nil.nestsWithin _)
  have htokens := ofLexemes_scan_enclose hfirst.tokens_eq none []
  rw [List.append_nil, ← hformula] at htokens
  rw [evaluate_of_stages (by simp [hformula, enclose]) hvalid htokens
    (toPostfix_group hfirst.ordered_eq), hfirst.run_eq]
  rfl

theorem evaluate_function_enclose (function : UnaryFunction)
    (hformula : formula.toList = function.name.toList ++ enclose first) :
    evaluate arithmetic mode formula =
      ofCalculation (arithmetic.unary mode function firstValue) := by
  have hvalid : validate formula = .ok () :=
    validate_of_enclose (isFlat_name function) [] (by simpa using hformula) hfirst.balanced
      hfirstNests isFlat_nil.balanced (isFlat_nil.nestsWithin _)
  have htokens : ofLexemes none (Lexeme.scan formula.toList) =
      .ok (.function function.name :: paren true :: (firstTokens ++ [paren false])) := by
    have hargument := ofLexemes_scan_enclose hfirst.tokens_eq (some (.function function.name)) []
    rw [List.append_nil, enclose, Lexeme.scan_opening] at hargument
    rw [hformula, enclose, Lexeme.scan_name, ofLexemes_word, hargument]
    simp [ofLexemes, placeAfter]
  rw [evaluate_of_stages (by simp [hformula, enclose]) hvalid htokens
    (toPostfix_function_group function.name hfirst.ordered_eq),
    run_append_function hfirst.run_eq]

include hsecond hsecondNests

theorem evaluate_enclose_sign_enclose (sign : OperatorSign)
    (hformula : formula.toList = enclose first ++ sign.char :: enclose second) :
    evaluate arithmetic mode formula =
      ofCalculation (arithmetic.binary sign.operation firstValue secondValue) := by
  have hsign := isFlat_sign sign
  have hvalid : validate formula = .ok () :=
    validate_of_enclose isFlat_nil _ hformula hfirst.balanced hfirstNests
      (hsign.balanced.append hsecond.balanced.enclose)
      (.append hsign.balanced (hsign.nestsWithin _) (hsecondNests.enclose hsecond.balanced))
  have htokens : ofLexemes none (Lexeme.scan formula.toList) =
      .ok (paren true :: (firstTokens ++ paren false :: sign.token :: paren true ::
        (secondTokens ++ [paren false]))) := by
    have hright := ofLexemes_scan_enclose hsecond.tokens_eq (some sign.token) []
    rw [List.append_nil] at hright
    rw [hformula, ofLexemes_scan_enclose hfirst.tokens_eq, Lexeme.scan_sign,
      ofLexemes_sign rfl, hright]
    simp [ofLexemes, placeAfter, OperatorSign.token, ofSign]
  rw [evaluate_of_stages (by simp [hformula, enclose]) hvalid htokens
    (toPostfix_group_sign_group sign hfirst.ordered_eq hsecond.ordered_eq),
    run_append_sign hfirst.run_eq hsecond.run_eq]

/-- Between two formulas in parentheses a multiplication is understood. -/
theorem evaluate_enclose_enclose
    (hformula : formula.toList = enclose first ++ enclose second) :
    evaluate arithmetic mode formula =
      ofCalculation (arithmetic.binary .multiply firstValue secondValue) := by
  have hvalid : validate formula = .ok () :=
    validate_of_enclose isFlat_nil _ hformula hfirst.balanced hfirstNests
      hsecond.balanced.enclose (hsecondNests.enclose hsecond.balanced)
  have htokens : ofLexemes none (Lexeme.scan formula.toList) =
      .ok (paren true :: (firstTokens ++ paren false :: OperatorSign.times.token :: paren true ::
        (secondTokens ++ [paren false]))) := by
    have hright := ofLexemes_scan_enclose hsecond.tokens_eq (some (paren false)) []
    rw [List.append_nil] at hright
    rw [hformula, ofLexemes_scan_enclose hfirst.tokens_eq, hright]
    simp [ofLexemes, placeAfter, impliesTimes, impliedTimes, OperatorSign.token,
      OperatorSign.char]
  rw [evaluate_of_stages (by simp [hformula, enclose]) hvalid htokens
    (toPostfix_group_sign_group .times hfirst.ordered_eq hsecond.ordered_eq),
    run_append_sign hfirst.run_eq hsecond.run_eq]
  rfl

end Succeeds

/-- A formula with a value has the same value in parentheses and its image in a function; two of
them joined by an operator sign, or by nothing, have the result of the operation. -/
theorem evaluate_compound {first second : String} {firstValue secondValue : α}
    (hfirst : evaluateIn arithmetic (.text mode.name) first = .ok firstValue)
    (hsecond : evaluateIn arithmetic (.text mode.name) second = .ok secondValue)
    (hfirstNests : NestsWithin 9 first.toList) (hsecondNests : NestsWithin 9 second.toList) :
    evaluateIn arithmetic (.text mode.name) ("(" ++ first ++ ")") = .ok firstValue ∧
      (∀ function : UnaryFunction,
        evaluateIn arithmetic (.text mode.name) (function.name ++ "(" ++ first ++ ")") =
          ofCalculation (arithmetic.unary mode function firstValue)) ∧
      (∀ sign : OperatorSign,
        evaluateIn arithmetic (.text mode.name)
            ("(" ++ first ++ ")" ++ String.singleton sign.char ++ "(" ++ second ++ ")") =
          ofCalculation (arithmetic.binary sign.operation firstValue secondValue)) ∧
      evaluateIn arithmetic (.text mode.name) ("(" ++ first ++ ")(" ++ second ++ ")") =
        ofCalculation (arithmetic.binary .multiply firstValue secondValue) := by
  simp only [evaluateIn_text_name] at *
  obtain ⟨firstTokens, firstOrdered, hfirst⟩ := exists_succeeds_of_evaluate hfirst
  obtain ⟨secondTokens, secondOrdered, hsecond⟩ := exists_succeeds_of_evaluate hsecond
  refine ⟨?_, fun function => ?_, fun sign => ?_, ?_⟩
  · exact evaluate_enclose hfirst hfirstNests (by simp [enclose])
  · exact evaluate_function_enclose hfirst hfirstNests function (by simp [enclose])
  · exact evaluate_enclose_sign_enclose hfirst hsecond hfirstNests hsecondNests sign
      (by simp [enclose])
  · exact evaluate_enclose_enclose hfirst hsecond hfirstNests hsecondNests (by simp [enclose])

/-- A text need not follow the grammar to be a part of others: `2 3 +` has a value. -/
theorem evaluate_compound_of_postfix_order :
    evaluateIn Standard.arithmetic (.text AngleMode.degrees.name) "2 3 +" =
        .ok (Double.ofNat 5) ∧
      evaluateIn Standard.arithmetic (.text AngleMode.degrees.name) "(2 3 +)(-7)" =
        .ok (Double.ofInt (-35)) := by
  have hfirst : evaluateIn Standard.arithmetic (.text AngleMode.degrees.name) "2 3 +" =
      .ok (Double.ofNat 5) := by decide +kernel
  have hsecond : evaluateIn Standard.arithmetic (.text AngleMode.degrees.name) "-7" =
      .ok (Double.ofInt (-7)) := by decide +kernel
  have hproduct : ofCalculation (Standard.arithmetic.binary .multiply (Double.ofNat 5)
      (Double.ofInt (-7))) = .ok (Double.ofInt (-35)) := by decide +kernel
  have hcompound := evaluate_compound hfirst hsecond (by decide +kernel) (by decide +kernel)
  exact ⟨hfirst, hcompound.2.2.2.trans hproduct⟩

end SciCalc.Formula
