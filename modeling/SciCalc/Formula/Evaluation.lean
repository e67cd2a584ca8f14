import SciCalc.Formula.Arithmetic
import SciCalc.Formula.Postfix

/-! # Values of formulas

A list in postfix order is evaluated with a stack of values: numbers are pushed, an operator
takes two values from the stack and a function takes one. What is left at the end must be one
value. A formula is evaluated by putting its tokens into postfix order.
-/

namespace SciCalc.Formula

variable {α : Type}

/-- The effect of an operator on the stack. -/
def applyOperator (arithmetic : Arithmetic α) (symbol : String) :
    List α → Except Fault (List α)
  | right :: left :: stack =>
    match BinaryOperation.ofSymbol? symbol with
    | some operation =>
      (· :: stack) <$> ofCalculation (arithmetic.binary operation left right)
    | none =>
      if (UnaryFunction.ofName? symbol).isSome then .error .misapplied
      else failWith .invalidExpression ("Operador desconocido: " ++ symbol)
  | _ => fail .invalidExpression

/-- The effect of a function on the stack. -/
def applyFunction (arithmetic : Arithmetic α) (mode : AngleMode) (name : String) :
    List α → Except Fault (List α)
  | argument :: stack =>
    match UnaryFunction.ofName? name with
    | some function => (· :: stack) <$> ofCalculation (arithmetic.unary mode function argument)
    | none =>
      if (BinaryOperation.ofSymbol? name).isSome then .error .misapplied
      else failWith .unknownFunction ("Función desconocida: " ++ name)
  | [] => fail .invalidExpression

/-- The effect of a token on the stack. A number with a text is read from the text. -/
def step (arithmetic : Arithmetic α) (mode : AngleMode) (stack : List α) :
    Token → Except Fault (List α)
  | .number _ (some text) => (· :: stack) <$> arithmetic.read text
  | .number value none => .ok (arithmetic.ofDouble value :: stack)
  | .operator symbol _ => applyOperator arithmetic symbol stack
  | .function name => applyFunction arithmetic mode name stack
  | .paren _ => fail .mismatchedParentheses

/-- The effect of a list of tokens on the stack. -/
def run (arithmetic : Arithmetic α) (mode : AngleMode) :
    List α → List Token → Except Fault (List α)
  | stack, [] => .ok stack
  | stack, token :: rest => do
    let stack ← step arithmetic mode stack token
    run arithmetic mode stack rest

/-- The one value on a stack. -/
def single : List α → Except Fault α
  | [value] => .ok value
  | _ => fail .invalidExpression

/-- The value of a list of tokens in postfix order. -/
def evaluatePostfix (arithmetic : Arithmetic α) (mode : AngleMode) (tokens : List Token) :
    Except Fault α :=
  run arithmetic mode [] tokens >>= single

def evaluate (arithmetic : Arithmetic α) (mode : AngleMode) (formula : String) :
    Except Fault α := do
  let tokens ← Token.tokenize formula
  let ordered ← Token.toPostfix tokens
  evaluatePostfix arithmetic mode ordered

/-- The value of a formula in the mode that a value of any kind names; the mode is looked at
before the formula. -/
def evaluateIn (arithmetic : Arithmetic α) (mode : Datum) (formula : String) :
    Except Fault α := do
  let mode ← AngleMode.ofDatum mode
  evaluate arithmetic mode formula

end SciCalc.Formula
