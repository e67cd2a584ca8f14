import SciCalc.Proofs.Formula.StackHeight

/-! # Readings of lists in postfix order

A list of tokens need not come from a text, and still it is in postfix order in at most one way: it
is the post-order of at most one tree. The trees of the tokens read so far wait on a stack, as their
values do in an evaluation, and a token takes from both stacks alike. So a list has a value exactly
if it is the post-order of a tree that has the value.

A list that is none fails with an error of the calculation, but for one case: an operator may carry
the name of a function, or a function the symbol of an operator. Such a token is applied to the
wrong number of operands as soon as it is reached with enough of them.
-/

namespace SciCalc

namespace Token

/-- Whether an operator has the name of a function, or a function the symbol of an operator. -/
def isMisnamed : Token → Bool
  | operator symbol _ => (UnaryFunction.ofName? symbol).isSome
  | function name => (BinaryOperation.ofSymbol? name).isSome
  | _ => false

/-- How many values the token takes. -/
def operands : Token → Nat
  | operator _ _ => 2
  | function _ => 1
  | _ => 0

/-- Whether the text of a number, if it has one, denotes a number. -/
def isReadable : Token → Bool
  | number _ (some text) => (Double.ofText? text).isSome
  | _ => true

end Token

namespace Formula

/-! ## Symbols and names -/

namespace OperatorSign

def all : List OperatorSign := [plus, minus, times, asterisk, obelus, slash, caret]

/-- The sign that is written as the given symbol. -/
def ofSymbol? (symbol : String) : Option OperatorSign :=
  all.find? fun sign => String.singleton sign.char == symbol

theorem ofSymbol?_eq_some_iff {symbol : String} {sign : OperatorSign} :
    ofSymbol? symbol = some sign ↔ String.singleton sign.char = symbol := by
  constructor
  · intro hsign
    simpa using List.find?_some hsign
  · rintro rfl
    cases sign <;> decide

end OperatorSign

/-- No symbol is the name of a function. -/
theorem ofSymbol?_name (function : UnaryFunction) :
    BinaryOperation.ofSymbol? function.name = none := by
  cases function <;> decide

theorem ofName?_char (sign : OperatorSign) :
    UnaryFunction.ofName? (String.singleton sign.char) = none := by
  cases sign <;> decide

/-! ## Readings -/

/-- An expression tree whose operators carry a precedence, as tokens do. -/
inductive Reading where
  | number (literal : Literal)
  | operation (sign : OperatorSign) (precedence : Int) (left right : Reading)
  | application (function : UnaryFunction) (argument : Reading)

namespace Reading

/-- The nodes of a reading as tokens, each after the nodes below it. -/
def postorder : Reading → List Token
  | number literal => [literal.token]
  | operation sign precedence left right =>
    left.postorder ++ (right.postorder ++ [.operator (String.singleton sign.char) precedence])
  | application function argument => argument.postorder ++ [.function function.name]

/-- The tree without the precedences, on which its value does not depend. -/
def tree : Reading → Tree Literal
  | number literal => .leaf literal
  | operation sign _ left right => .binary sign left.tree right.tree
  | application function argument => .apply function argument.tree

/-- The value of a reading: that of its left part, then that of its right part, then the operation
on both. -/
def value {α : Type} (arithmetic : Arithmetic α) (mode : AngleMode) (reading : Reading) :
    Except Fault α :=
  reading.tree.value arithmetic mode (Literal.read arithmetic)

/-- The effect of a token on the readings of the tokens before it, if it is a part of a reading. -/
def gather (stack : List Reading) : Token → Option (List Reading)
  | .number value text => some (number ⟨value, text⟩ :: stack)
  | .operator symbol precedence =>
    match stack with
    | right :: left :: below =>
      (OperatorSign.ofSymbol? symbol).map (operation · precedence left right :: below)
    | _ => none
  | .function name =>
    match stack with
    | argument :: below => (UnaryFunction.ofName? name).map (application · argument :: below)
    | [] => none
  | .paren _ => none

/-- The readings of the tokens that are read with the given readings waiting. -/
def gatherAll (stack : List Reading) (tokens : List Token) : Option (List Reading) :=
  tokens.foldlM gather stack

/-- The tokens of the readings on a stack, from the lowest one on. -/
def written (stack : List Reading) : List Token := stack.reverse.flatMap postorder

theorem written_cons (reading : Reading) (stack : List Reading) :
    written (reading :: stack) = written stack ++ reading.postorder := by
  simp [written]

/-! ## A list is read in one way -/

/-- A token that is gathered is written behind the tokens before it. -/
theorem written_of_gather {stack next : List Reading} {token : Token}
    (hgather : gather stack token = some next) : written next = written stack ++ [token] := by
  cases token with
  | number value text =>
      obtain rfl := Option.some.inj hgather
      rw [written_cons]
      rfl
  | operator symbol precedence =>
      match stack with
      | [] | [_] => exact nomatch hgather
      | right :: left :: below =>
          obtain ⟨sign, hsign, rfl⟩ := Option.map_eq_some_iff.mp hgather
          obtain rfl := OperatorSign.ofSymbol?_eq_some_iff.mp hsign
          simp only [written_cons, postorder, List.append_assoc]
  | function name =>
      cases stack with
      | nil => exact nomatch hgather
      | cons argument below =>
          obtain ⟨function, hfunction, rfl⟩ := Option.map_eq_some_iff.mp hgather
          obtain rfl := ofName?_eq_some_iff.mp hfunction
          simp only [written_cons, postorder, List.append_assoc]
  | paren isOpen => exact nomatch hgather

theorem written_of_gatherAll {stack next : List Reading} {tokens : List Token}
    (hgather : gatherAll stack tokens = some next) : written next = written stack ++ tokens := by
  induction tokens generalizing stack with
  | nil =>
      obtain rfl := Option.some.inj hgather
      rw [List.append_nil]
  | cons token rest ih =>
      obtain ⟨middle, hfirst, hrest⟩ := Option.bind_eq_some_iff.mp hgather
      rw [ih hrest, written_of_gather hfirst, List.append_assoc, List.singleton_append]

theorem gatherAll_append (stack : List Reading) (first second : List Token) :
    gatherAll stack (first ++ second) =
      (gatherAll stack first).bind fun next => gatherAll next second :=
  List.foldlM_append

/-- The post-order of a reading is gathered to the reading. -/
theorem gatherAll_postorder (reading : Reading) (stack : List Reading) :
    gatherAll stack reading.postorder = some (reading :: stack) := by
  induction reading generalizing stack with
  | number literal => rfl
  | operation sign precedence left right ihleft ihright =>
      have hsign := OperatorSign.ofSymbol?_eq_some_iff.mpr (rfl : _ = String.singleton sign.char)
      simp only [postorder, gatherAll_append, ihleft, ihright, Option.bind_some]
      simp [gatherAll, gather, hsign]
  | application function argument ih =>
      simp only [postorder, gatherAll_append, ih, Option.bind_some]
      simp [gatherAll, gather]

/-- A list is gathered to one reading exactly if it is the post-order of that reading. -/
theorem gatherAll_eq_singleton_iff {reading : Reading} {tokens : List Token} :
    gatherAll [] tokens = some [reading] ↔ reading.postorder = tokens := by
  constructor
  · intro hgather
    have hwritten := written_of_gatherAll hgather
    rw [written_cons] at hwritten
    simpa [written] using hwritten
  · rintro rfl
    exact gatherAll_postorder reading []

/-- No list is the post-order of two readings. -/
theorem postorder_injective : Function.Injective postorder := by
  intro first second hsame
  have hgather := gatherAll_postorder first []
  rw [hsame, gatherAll_postorder second []] at hgather
  exact (List.cons.inj (Option.some.inj hgather)).1.symm

end Reading

/-! ## Values and readings wait alike -/

section Values

variable {α : Type} {arithmetic : Arithmetic α} {mode : AngleMode}

/-- The effect of a token does not depend on its precedence, so a reading is run as its tree is. -/
theorem run_postorder_reading (stack : List α) (reading : Reading) :
    run arithmetic mode stack reading.postorder =
      (· :: stack) <$> reading.value arithmetic mode := by
  rw [Reading.value, ← run_postorder]
  induction reading generalizing stack with
  | number literal => rfl
  | operation sign precedence left right ihleft ihright =>
      simp only [Reading.postorder, Reading.tree, Tree.postorder, run_append, ihleft, ihright]
      rfl
  | application function argument ih =>
      simp only [Reading.postorder, Reading.tree, Tree.postorder, run_append, ih]

/-- The stack holds the values of the readings, in their order. -/
abbrev AreValues (arithmetic : Arithmetic α) (mode : AngleMode) (readings : List Reading)
    (stack : List α) : Prop :=
  List.Forall₂ (fun reading value => reading.value arithmetic mode = .ok value) readings stack

/-- A token that finds its operands among the values finds them among the readings, too. -/
theorem exists_gather_of_step {readings : List Reading} {stack next : List α} {token : Token}
    (hvalues : AreValues arithmetic mode readings stack)
    (hstep : step arithmetic mode stack token = .ok next) :
    ∃ gathered, Reading.gather readings token = some gathered ∧
      AreValues arithmetic mode gathered next := by
  cases step_eq_ok_iff.mp hstep with
  | number literal hread => exact ⟨_, rfl, .cons hread hvalues⟩
  | operator sign precedence hoperation =>
      -- The readings are as many as the values, so there are two of them on top.
      rcases hvalues with _ | ⟨hright, _ | ⟨hleft, hbelow⟩⟩
      have hsign := OperatorSign.ofSymbol?_eq_some_iff.mpr (rfl : _ = String.singleton sign.char)
      refine ⟨_, by simp only [Reading.gather, hsign, Option.map_some]; rfl, .cons ?_ hbelow⟩
      simp only [Reading.value] at hleft hright
      simp only [Reading.value, Reading.tree, Tree.value, hleft, hright, bind_ok]
      exact ofCalculation_eq_ok_iff.mpr hoperation
  | function meant hmeant =>
      rcases hvalues with _ | ⟨hargument, hbelow⟩
      refine ⟨_, by simp only [Reading.gather, ofName?_name, Option.map_some]; rfl,
        .cons ?_ hbelow⟩
      simp only [Reading.value] at hargument
      simp only [Reading.value, Reading.tree, Tree.value, hargument, bind_ok]
      exact ofCalculation_eq_ok_iff.mpr hmeant

/-- The values that a list leaves are those of the readings that it is gathered to. -/
theorem exists_gatherAll_of_run {readings : List Reading} {stack next : List α}
    {tokens : List Token} (hvalues : AreValues arithmetic mode readings stack)
    (hrun : run arithmetic mode stack tokens = .ok next) :
    ∃ gathered, Reading.gatherAll readings tokens = some gathered ∧
      AreValues arithmetic mode gathered next := by
  induction tokens generalizing readings stack with
  | nil =>
      obtain rfl := Except.ok.inj hrun
      exact ⟨readings, rfl, hvalues⟩
  | cons token rest ih =>
      rw [run_cons, bind_eq_ok_iff] at hrun
      obtain ⟨middle, hfirst, hrest⟩ := hrun
      obtain ⟨between, hgather, hbetween⟩ := exists_gather_of_step hvalues hfirst
      obtain ⟨gathered, hgathered, hnext⟩ := ih hbetween hrest
      refine ⟨gathered, ?_, hnext⟩
      rw [Reading.gatherAll, List.foldlM_cons, hgather]
      exact hgathered

/-- A list has a value exactly if it is the post-order of a reading that has the value. -/
theorem evaluatePostfix_eq_ok_iff {tokens : List Token} {value : α} :
    evaluatePostfix arithmetic mode tokens = .ok value ↔
      ∃ reading : Reading, reading.postorder = tokens ∧
        reading.value arithmetic mode = .ok value := by
  constructor
  · intro hvalue
    obtain ⟨stack, hrun, hsingle⟩ := bind_eq_ok_iff.mp hvalue
    obtain rfl := single_eq_ok_iff.mp hsingle
    obtain ⟨gathered, hgathered, hvalues⟩ := exists_gatherAll_of_run .nil hrun
    match hvalues with
    | .cons hreading .nil =>
        exact ⟨_, Reading.gatherAll_eq_singleton_iff.mp hgathered, hreading⟩
  · rintro ⟨reading, rfl, hreading⟩
    rw [evaluatePostfix, run_postorder_reading, hreading]
    rfl

/-! ## Tokens with a name of the other kind -/

/-- Such a token is applied as soon as there are operands for it, and then there are too many or too
few of them. -/
theorem step_of_isMisnamed {stack : List α} {token : Token} (hmisnamed : token.isMisnamed = true)
    (hoperands : token.operands ≤ stack.length) :
    step arithmetic mode stack token = .error .misapplied := by
  cases token with
  | number | paren => exact absurd hmisnamed Bool.false_ne_true
  | operator symbol precedence =>
      obtain ⟨function, hfunction⟩ := Option.isSome_iff_exists.mp hmisnamed
      obtain rfl := ofName?_eq_some_iff.mp hfunction
      rcases stack with _ | ⟨right, _ | ⟨left, below⟩⟩
      · exact absurd hoperands (by simp [Token.operands])
      · exact absurd hoperands (by simp [Token.operands])
      · simp [step, applyOperator, ofSymbol?_name]
  | function name =>
      obtain ⟨meant, hmeant⟩ := Option.isSome_iff_exists.mp hmisnamed
      obtain ⟨sign, rfl⟩ := OperatorSign.exists_char_of_ofSymbol? hmeant
      cases stack with
      | nil => exact absurd hoperands (by simp [Token.operands])
      | cons argument below => simp [step, applyFunction, ofName?_char]

/-- A token that can be read fails with an error of the calculation, or is applied to the wrong
number of operands. -/
theorem step_fault_cases (hreads : arithmetic.ReadsNumerals) {stack : List α} {token : Token}
    (hreadable : token.isReadable = true) {fault : Fault}
    (hfault : step arithmetic mode stack token = .error fault) :
    (∃ error, fault = .calculation error) ∨
      fault = .misapplied ∧ token.isMisnamed = true ∧ token.operands ≤ stack.length := by
  have hcalculation : ∀ {call : Except Fault (List α)}, FailsAsCalculation call →
      call = .error fault → (∃ error, fault = .calculation error) ∨
        fault = .misapplied ∧ token.isMisnamed = true ∧ token.operands ≤ stack.length :=
    fun hcall herror => .inl (hcall fault herror)
  cases token with
  | number value text =>
      cases text with
      | none => cases hfault
      | some text =>
          obtain ⟨number, hnumber⟩ := Option.isSome_iff_exists.mp hreadable
          obtain ⟨x, hx⟩ := hreads hnumber
          rw [step, hx] at hfault
          cases hfault
  | operator symbol precedence =>
      rcases stack with _ | ⟨right, _ | ⟨left, below⟩⟩
      · exact hcalculation (.fail _) hfault
      · exact hcalculation (.fail _) hfault
      · simp only [step, applyOperator] at hfault
        split at hfault
        · exact hcalculation ((FailsAsCalculation.ofCalculation _).map _) hfault
        split at hfault
        next hname =>
          exact .inr ⟨(Except.error.inj hfault).symm, hname, by simp [Token.operands]⟩
        · exact hcalculation (.failWith _ _) hfault
  | function name =>
      cases stack with
      | nil => exact hcalculation (.fail _) hfault
      | cons argument below =>
          simp only [step, applyFunction] at hfault
          split at hfault
          · exact hcalculation ((FailsAsCalculation.ofCalculation _).map _) hfault
          split at hfault
          next hsymbol =>
            exact .inr ⟨(Except.error.inj hfault).symm, hsymbol, by simp [Token.operands]⟩
          · exact hcalculation (.failWith _ _) hfault
  | paren isOpen => exact hcalculation (.fail _) hfault

/-- The list begins with post-orders of readings that have values, and behind them stands a token
with a name of the other kind for which there are enough of them. -/
def Misapplies (arithmetic : Arithmetic α) (mode : AngleMode) (tokens : List Token) : Prop :=
  ∃ (readings : List Reading) (token : Token) (rest : List Token),
    tokens = readings.flatMap Reading.postorder ++ token :: rest ∧
      (∀ reading ∈ readings, ∃ value, reading.value arithmetic mode = .ok value) ∧
      token.isMisnamed = true ∧ token.operands ≤ readings.length

/-- A run of readable tokens fails with an error of the calculation, or at a token with a name of
the other kind. -/
theorem run_fault_cases (hreads : arithmetic.ReadsNumerals) {stack : List α} {tokens : List Token}
    (hreadable : ∀ token ∈ tokens, token.isReadable = true) {fault : Fault}
    (hfault : run arithmetic mode stack tokens = .error fault) :
    (∃ error, fault = .calculation error) ∨
      fault = .misapplied ∧ ∃ before token rest next,
        tokens = before ++ token :: rest ∧ run arithmetic mode stack before = .ok next ∧
          token.isMisnamed = true ∧ token.operands ≤ next.length := by
  induction tokens generalizing stack with
  | nil => exact nomatch hfault
  | cons token rest ih =>
      obtain ⟨htoken, hrest⟩ := List.forall_mem_cons.mp hreadable
      rw [run_cons, bind_eq_error_iff] at hfault
      -- The first token fails, or it is read and the fault is one of the rest.
      rcases hfault with hfirst | ⟨middle, hstep, hlater⟩
      · refine (step_fault_cases hreads htoken hfirst).imp_right ?_
        rintro ⟨rfl, hmisnamed, hoperands⟩
        exact ⟨rfl, [], token, rest, stack, rfl, rfl, hmisnamed, hoperands⟩
      · refine (ih hrest hlater).imp_right ?_
        rintro ⟨rfl, before, misnamed, after, next, rfl, hbefore, hmisnamed, hoperands⟩
        refine ⟨rfl, token :: before, misnamed, after, next, rfl, ?_, hmisnamed, hoperands⟩
        rw [run_cons, hstep]
        exact hbefore

/-- Readings with values put as many values on the stack as there are readings. -/
theorem exists_run_flatMap {readings : List Reading} (stack : List α)
    (hvalues : ∀ reading ∈ readings, ∃ value, reading.value arithmetic mode = .ok value) :
    ∃ next, run arithmetic mode stack (readings.flatMap Reading.postorder) = .ok next ∧
      next.length = stack.length + readings.length := by
  induction readings generalizing stack with
  | nil => exact ⟨stack, rfl, rfl⟩
  | cons reading rest ih =>
      obtain ⟨⟨value, hvalue⟩, hrest⟩ := List.forall_mem_cons.mp hvalues
      obtain ⟨next, hnext, hlength⟩ := ih (value :: stack) hrest
      refine ⟨next, ?_, ?_⟩
      · rw [List.flatMap_cons, run_append, run_postorder_reading, hvalue]
        exact hnext
      · rw [hlength, List.length_cons, List.length_cons]
        omega

/-- The values before a token are those of readings, of which there are as many. -/
theorem misapplies_of_run {before rest : List Token} {token : Token} {next : List α}
    (hbefore : run arithmetic mode [] before = .ok next) (hmisnamed : token.isMisnamed = true)
    (hoperands : token.operands ≤ next.length) :
    Misapplies arithmetic mode (before ++ token :: rest) := by
  obtain ⟨gathered, hgathered, hvalues⟩ := exists_gatherAll_of_run .nil hbefore
  have hwritten := Reading.written_of_gatherAll hgathered
  -- The last reading lies on top of the stack, and comes last in the list.
  refine ⟨gathered.reverse, token, rest, ?_, fun reading hmem => ?_, hmisnamed, ?_⟩
  · simpa [Reading.written] using hwritten.symm
  · obtain ⟨index, hindex, rfl⟩ := List.getElem_of_mem (List.mem_reverse.mp hmem)
    exact ⟨_, hvalues.get hindex (hvalues.length_eq ▸ hindex)⟩
  · rw [List.length_reverse, hvalues.length_eq]
    exact hoperands

theorem evaluatePostfix_of_misapplies {tokens : List Token}
    (hmisapplies : Misapplies arithmetic mode tokens) :
    evaluatePostfix arithmetic mode tokens = .error .misapplied := by
  obtain ⟨readings, token, rest, rfl, hvalues, hmisnamed, hoperands⟩ := hmisapplies
  obtain ⟨next, hnext, hlength⟩ := exists_run_flatMap [] hvalues
  rw [List.length_nil, Nat.zero_add] at hlength
  rw [evaluatePostfix, run_append, hnext, bind_ok, run_cons,
    step_of_isMisnamed hmisnamed (hlength ▸ hoperands)]
  rfl

/-- Readable tokens fail with an error of the calculation unless a token has a name of the other
kind and operands. -/
theorem evaluatePostfix_fault_cases (hreads : arithmetic.ReadsNumerals) {tokens : List Token}
    (hreadable : ∀ token ∈ tokens, token.isReadable = true) {fault : Fault}
    (hfault : evaluatePostfix arithmetic mode tokens = .error fault) :
    (∃ error, fault = .calculation error) ∨
      fault = .misapplied ∧ Misapplies arithmetic mode tokens := by
  rcases bind_eq_error_iff.mp hfault with hrun | ⟨stack, -, hsingle⟩
  · refine (run_fault_cases hreads hreadable hrun).imp_right ?_
    rintro ⟨hmisapplied, before, token, rest, next, rfl, hbefore, hmisnamed, hoperands⟩
    exact ⟨hmisapplied, misapplies_of_run hbefore hmisnamed hoperands⟩
  · exact .inl (failsAsCalculation_single stack fault hsingle)

end Values

/-! ## Lists of readable tokens -/

/-- A list of readable tokens has a value exactly if it is the post-order of a tree with that value.
It is the post-order of no other tree. If there is no such tree, an error of the calculation is
reported, unless an operator with the name of a function, or a function with the symbol of an
operator, is reached with operands for it. -/
theorem postfix_read_in_one_way (mode : AngleMode) {tokens : List Token}
    (hreadable : ∀ token ∈ tokens, token.isReadable = true) :
    (∀ value, evaluatePostfix Standard.arithmetic mode tokens = .ok value ↔
      ∃ reading : Reading, reading.postorder = tokens ∧
        reading.value Standard.arithmetic mode = .ok value) ∧
    (∀ first second : Reading,
      first.postorder = tokens → second.postorder = tokens → first = second) ∧
    ((¬ ∃ (reading : Reading) (value : Double), reading.postorder = tokens ∧
        reading.value Standard.arithmetic mode = .ok value) →
      ¬ Misapplies Standard.arithmetic mode tokens →
      ∃ error, evaluatePostfix Standard.arithmetic mode tokens = .error (.calculation error)) ∧
    (Misapplies Standard.arithmetic mode tokens →
      evaluatePostfix Standard.arithmetic mode tokens = .error .misapplied) := by
  refine ⟨fun value => evaluatePostfix_eq_ok_iff, ?_, ?_, evaluatePostfix_of_misapplies⟩
  · intro first second hfirst hsecond
    exact Reading.postorder_injective (hfirst.trans hsecond.symm)
  · intro hnone hproper
    cases hcall : evaluatePostfix Standard.arithmetic mode tokens with
    | ok value =>
        obtain ⟨reading, hreading⟩ := evaluatePostfix_eq_ok_iff.mp hcall
        exact absurd ⟨reading, value, hreading⟩ hnone
    | error fault =>
        rcases evaluatePostfix_fault_cases Standard.readsNumerals hreadable hcall with
          ⟨error, rfl⟩ | ⟨-, hmisapplies⟩
        · exact ⟨error, rfl⟩
        · exact absurd hmisapplies hproper

/-- A number with a text that differs from its value is what the text says, the operands of a
difference keep their order, and the precedence of the sign does not count. -/
theorem postfix_read_in_one_way_difference :
    (∀ token ∈ [Token.number .nan (some " 7 "), .number (Double.ofNat 2) none, .operator "-" 99],
      token.isReadable = true) ∧
    ∃ reading : Reading,
      reading.postorder =
          [.number .nan (some " 7 "), .number (Double.ofNat 2) none, .operator "-" 99] ∧
        reading.value Standard.arithmetic .degrees = .ok (Double.ofNat 5) := by
  have hreadable : ∀ token ∈
      [Token.number .nan (some " 7 "), .number (Double.ofNat 2) none, .operator "-" 99],
      token.isReadable = true := by decide +kernel
  exact ⟨hreadable, ((postfix_read_in_one_way .degrees hreadable).1 _).mp (by decide +kernel)⟩

/-- An operator with the name of a function is no part of a tree, and with two operands it escapes
as something else than an error of the calculation. -/
theorem operator_named_as_function_misapplied :
    ∃ tokens : List Token, (∀ token ∈ tokens, token.isReadable = true) ∧
      (¬ ∃ reading : Reading, reading.postorder = tokens) ∧
      ∀ mode, ¬ ∃ error,
        evaluatePostfix Standard.arithmetic mode tokens = .error (.calculation error) := by
  refine ⟨[.number (Double.ofNat 30) none, .number (Double.ofNat 2) none, .operator "sin" 1],
    by decide, ?_, fun mode => ?_⟩
  · rintro ⟨reading, hreading⟩
    have hnone : Reading.gatherAll [] [.number (Double.ofNat 30) none,
        .number (Double.ofNat 2) none, .operator "sin" 1] = none := by decide +kernel
    rw [Reading.gatherAll_eq_singleton_iff.mpr hreading] at hnone
    exact nomatch hnone
  · rintro ⟨error, herror⟩
    cases mode <;> exact nomatch herror

end Formula

end SciCalc
