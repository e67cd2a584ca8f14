import SciCalc.Proofs.Formula.Tokenizing

/-! # The stack of values

A list of tokens in postfix order works on a stack of values. What lies below the values that it
takes is not looked at, and the post-order of a tree puts exactly the value of the tree on the
stack.
-/

namespace SciCalc.Formula

variable {α : Type} (arithmetic : Arithmetic α) (mode : AngleMode)

@[simp] theorem run_nil (stack : List α) : run arithmetic mode stack [] = .ok stack := rfl

@[simp] theorem run_cons (stack : List α) (token : Token) (rest : List Token) :
    run arithmetic mode stack (token :: rest) =
      step arithmetic mode stack token >>= fun next => run arithmetic mode next rest := rfl

theorem run_append (stack : List α) (first second : List Token) :
    run arithmetic mode stack (first ++ second) =
      run arithmetic mode stack first >>= fun next => run arithmetic mode next second := by
  induction first generalizing stack with
  | nil => rfl
  | cons token rest ih => simp only [List.cons_append, run_cons, bind_assoc, ih]

/-! ## What a token does -/

theorem step_literal (stack : List α) (literal : Literal) :
    step arithmetic mode stack literal.token =
      (· :: stack) <$> literal.read arithmetic := by
  obtain ⟨value, text⟩ := literal
  cases text <;> rfl

theorem step_operatorSign (stack : List α) (sign : OperatorSign) (left right : α) :
    step arithmetic mode (right :: left :: stack) sign.token =
      (· :: stack) <$> ofCalculation (arithmetic.binary sign.operation left right) := by
  simp [step, OperatorSign.token, Token.ofSign, applyOperator]

theorem step_function (stack : List α) (function : UnaryFunction) (argument : α) :
    step arithmetic mode (argument :: stack) (.function function.name) =
      (· :: stack) <$> ofCalculation (arithmetic.unary mode function argument) := by
  simp [step, applyFunction]

/-- What a token takes from the stack and puts there, if it succeeds: a number takes nothing, an
operator its two operands and a function its argument. -/
inductive Effect : Token → List α → List α → Prop where
  | number {stack : List α} (literal : Literal) {value : α}
      (hread : literal.read arithmetic = .ok value) :
      Effect literal.token stack (value :: stack)
  | operator {stack : List α} (sign : OperatorSign) (precedence : Int) {left right value : α}
      (hoperation : arithmetic.binary sign.operation left right = .ok value) :
      Effect (.operator (String.singleton sign.char) precedence) (right :: left :: stack)
        (value :: stack)
  | function {stack : List α} (function : UnaryFunction) {argument value : α}
      (hfunction : arithmetic.unary mode function argument = .ok value) :
      Effect (.function function.name) (argument :: stack) (value :: stack)

variable {arithmetic mode} in
/-- A step succeeds with the effect of its token. -/
theorem step_eq_ok_iff {token : Token} {stack next : List α} :
    step arithmetic mode stack token = .ok next ↔ Effect arithmetic mode token stack next := by
  constructor
  · intro hstep
    cases token with
    | number value text =>
        have hliteral := step_literal arithmetic mode stack ⟨value, text⟩
        rw [Literal.token, hstep, eq_comm, map_eq_ok_iff] at hliteral
        obtain ⟨x, hread, rfl⟩ := hliteral
        exact .number ⟨value, text⟩ hread
    | operator symbol precedence =>
        rcases stack with _ | ⟨right, _ | ⟨left, below⟩⟩
        · exact absurd hstep (fail_ne_ok _ _)
        · exact absurd hstep (fail_ne_ok _ _)
        simp only [step, applyOperator] at hstep
        split at hstep
        next meant hmeant =>
          obtain ⟨sign, rfl⟩ := OperatorSign.exists_char_of_ofSymbol? hmeant
          rw [OperatorSign.ofSymbol?_char, Option.some.injEq] at hmeant
          subst hmeant
          obtain ⟨x, hx, rfl⟩ := map_eq_ok_iff.mp hstep
          exact .operator sign precedence (ofCalculation_eq_ok_iff.mp hx)
        · split at hstep <;> simp at hstep
    | function name =>
        rcases stack with _ | ⟨argument, below⟩
        · exact absurd hstep (fail_ne_ok _ _)
        simp only [step, applyFunction] at hstep
        split at hstep
        next meant hmeant =>
          obtain rfl := ofName?_eq_some_iff.mp hmeant
          obtain ⟨x, hx, rfl⟩ := map_eq_ok_iff.mp hstep
          exact .function meant (ofCalculation_eq_ok_iff.mp hx)
        · split at hstep <;> simp at hstep
    | paren isOpen => exact absurd hstep (fail_ne_ok _ _)
  · rintro (⟨literal, hread⟩ | ⟨sign, precedence, hoperation⟩ | ⟨meant, hmeant⟩)
    · rw [step_literal, hread, Except.map_ok]
    · simp [step, applyOperator, hoperation, ofCalculation]
    · rw [step_function, hmeant, ofCalculation_eq_ok_iff.mpr rfl, Except.map_ok]

/-! ## What lies below -/

theorem step_append {token : Token} {stack next : List α}
    (hstep : step arithmetic mode stack token = .ok next) (below : List α) :
    step arithmetic mode (stack ++ below) token = .ok (next ++ below) := by
  rw [step_eq_ok_iff] at hstep ⊢
  cases hstep with
  | number literal hread => exact .number literal hread
  | operator sign precedence hoperation => exact .operator sign precedence hoperation
  | function meant hmeant => exact .function meant hmeant

/-- A list that runs on some values does the same on top of others. -/
theorem run_append_below {tokens : List Token} {stack next : List α}
    (hrun : run arithmetic mode stack tokens = .ok next) (below : List α) :
    run arithmetic mode (stack ++ below) tokens = .ok (next ++ below) := by
  induction tokens generalizing stack with
  | nil =>
      simp only [run_nil, Except.ok.injEq] at hrun ⊢
      rw [hrun]
  | cons token rest ih =>
      rw [run_cons, bind_eq_ok_iff] at hrun
      obtain ⟨middle, hstep, hrest⟩ := hrun
      rw [run_cons, step_append arithmetic mode hstep below, bind_ok, ih hrest]

/-! ## How many values there are -/

/-- A number puts one more value on the stack, an operator leaves one less. -/
theorem step_length {token : Token} {stack next : List α}
    (hstep : step arithmetic mode stack token = .ok next) :
    next.length + [token].countP Token.isOperator =
      stack.length + [token].countP Token.isNumber := by
  cases step_eq_ok_iff.mp hstep with
  | number literal hread => simp [Literal.token, Token.isNumber, Token.isOperator]
  | operator sign precedence hoperation => simp [Token.isNumber, Token.isOperator]
  | function meant hmeant => simp [Token.isNumber, Token.isOperator]

theorem run_length {tokens : List Token} {stack next : List α}
    (hrun : run arithmetic mode stack tokens = .ok next) :
    next.length + tokens.countP Token.isOperator =
      stack.length + tokens.countP Token.isNumber := by
  induction tokens generalizing stack with
  | nil =>
      obtain rfl : stack = next := by simpa using hrun
      rfl
  | cons token rest ih =>
      rw [run_cons, bind_eq_ok_iff] at hrun
      obtain ⟨middle, hstep, hrest⟩ := hrun
      have hfirst := step_length arithmetic mode hstep
      have hsecond := ih hrest
      rw [← List.singleton_append, List.countP_append, List.countP_append]
      omega

theorem single_eq_ok_iff {stack : List α} {value : α} :
    single stack = .ok value ↔ stack = [value] := by
  unfold single
  split <;> simp_all

/-! ## Values of trees -/

/-- The post-order of a tree puts the value of the tree on the stack, or fails as the tree does. -/
theorem run_postorder (stack : List α) (tree : Tree Literal) :
    run arithmetic mode stack tree.postorder =
      (· :: stack) <$> tree.value arithmetic mode (Literal.read arithmetic) := by
  induction tree generalizing stack with
  | leaf literal =>
      simp only [Tree.postorder, run_cons, run_nil, step_literal, Tree.value]
      cases literal.read arithmetic <;> rfl
  | binary sign left right ihleft ihright =>
      simp only [Tree.postorder, run_append, ihleft, ihright, Tree.value]
      cases left.value arithmetic mode (Literal.read arithmetic) with
      | error fault => rfl
      | ok leftValue =>
          cases right.value arithmetic mode (Literal.read arithmetic) with
          | error fault => rfl
          | ok rightValue =>
              simp only [Except.map_ok, bind_ok, run_cons, run_nil, step_operatorSign]
              cases ofCalculation (arithmetic.binary sign.operation leftValue rightValue) <;> rfl
  | apply function argument ih =>
      simp only [Tree.postorder, run_append, ih, Tree.value]
      cases argument.value arithmetic mode (Literal.read arithmetic) with
      | error fault => rfl
      | ok argumentValue =>
          simp only [Except.map_ok, bind_ok, run_cons, run_nil, step_function]
          cases ofCalculation (arithmetic.unary mode function argumentValue) <;> rfl

theorem evaluatePostfix_postorder (tree : Tree Literal) :
    evaluatePostfix arithmetic mode tree.postorder =
      tree.value arithmetic mode (Literal.read arithmetic) := by
  rw [evaluatePostfix, run_postorder]
  cases tree.value arithmetic mode (Literal.read arithmetic) <;> rfl

end SciCalc.Formula
