import SciCalc.Failure
import SciCalc.Datum

/-! # What a formula can compute

A formula has five binary operations and eight functions of one argument. An `Arithmetic` says
what they mean for one type of numbers: how a literal is read, and what each operation and
function gives. Trigonometric functions read their argument in the angle mode.
-/

namespace SciCalc

inductive AngleMode where
  | degrees
  | radians
  deriving DecidableEq

namespace AngleMode

def name : AngleMode → String
  | degrees => "deg"
  | radians => "rad"

def names : List String := [degrees.name, radians.name]

/-- The mode that is used before another is chosen. -/
def default : AngleMode := degrees

def ofName? (name : String) : Option AngleMode :=
  if name == "deg" then some degrees else if name == "rad" then some radians else none

/-- The mode with the given name, where every other name means radians. -/
def ofName (name : String) : AngleMode := (ofName? name).getD radians

/-- The mode that a value of any kind names. -/
def ofDatum : Datum → Except Fault AngleMode
  | .text name =>
    match ofName? name with
    | some mode => .ok mode
    | none => fail .invalidAngleMode
  | _ => fail .invalidAngleMode

def toggle : AngleMode → AngleMode
  | degrees => radians
  | radians => degrees

end AngleMode

inductive BinaryOperation where
  | add
  | subtract
  | multiply
  | divide
  | power
  deriving DecidableEq

/-- The operation that an operator symbol stands for; multiplication and division have two
symbols each. -/
def BinaryOperation.ofSymbol? (symbol : String) : Option BinaryOperation :=
  if symbol == "+" then some add
  else if symbol == "-" then some subtract
  else if symbol == "×" || symbol == "*" then some multiply
  else if symbol == "÷" || symbol == "/" then some divide
  else if symbol == "^" then some power
  else none

inductive UnaryFunction where
  | sin
  | cos
  | tan
  | ln
  | log
  | sqrt
  | exp
  | factorial
  deriving DecidableEq

namespace UnaryFunction

def all : List UnaryFunction := [sin, cos, tan, ln, log, sqrt, exp, factorial]

def name : UnaryFunction → String
  | sin => "sin"
  | cos => "cos"
  | tan => "tan"
  | ln => "ln"
  | log => "log"
  | sqrt => "sqrt"
  | exp => "exp"
  | factorial => "factorial"

def ofName? (name : String) : Option UnaryFunction :=
  all.find? fun function => function.name == name

end UnaryFunction

/-- What numbers of a type do in a formula. -/
structure Arithmetic (α : Type) where
  /-- Reads a literal. -/
  read : String → Except Fault α
  /-- Takes over a double. -/
  ofDouble : Double → α
  /-- Applies an operation to its left and its right operand. -/
  binary : BinaryOperation → α → α → Except CalcError α
  /-- Applies a function in an angle mode. -/
  unary : AngleMode → UnaryFunction → α → Except CalcError α

namespace CalcError

def divisionByZero : CalcError := ofKind .divisionByZero

/-- The error of a logarithm of a number that is not positive. -/
def logarithmDomain (function : UnaryFunction) : CalcError :=
  ⟨.invalidDomain, function.name ++ " requiere un valor positivo"⟩

def squareRootDomain : CalcError := ⟨.invalidDomain, "sqrt requiere un valor no negativo"⟩

/-- The error of the factorial of a number that is no natural number. -/
def factorialDomain : CalcError := ofKind .invalidFactorialInput

end CalcError

end SciCalc
