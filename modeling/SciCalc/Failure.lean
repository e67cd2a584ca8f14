import SciCalc.Text.Quoted

/-! # Failures

A calculation fails for one of ten kinds of reason, each with a message in Spanish that may say
more than the kind does. Around that stand failures that no calculation is meant to show: a text
or value that is no number where one is needed, an integer that is too long for a text, a number
too large to be converted, and an operation with the wrong number of operands.
-/

namespace SciCalc

inductive ErrorKind where
  | divisionByZero
  | invalidDomain
  | invalidFactorialInput
  | invalidAngleMode
  | mismatchedParentheses
  | unknownFunction
  | invalidCharacter
  | invalidExpression
  | invalidValue
  | overflow
  deriving DecidableEq

namespace ErrorKind

/-- All kinds, in the order in which they are listed to users. -/
def all : List ErrorKind :=
  [divisionByZero, invalidDomain, invalidFactorialInput, invalidAngleMode, mismatchedParentheses,
    unknownFunction, invalidCharacter, invalidExpression, invalidValue, overflow]

/-- The identifier of the kind in lower case. -/
def identifier : ErrorKind → String
  | divisionByZero => "division_by_zero"
  | invalidDomain => "invalid_domain"
  | invalidFactorialInput => "invalid_factorial_input"
  | invalidAngleMode => "invalid_angle_mode"
  | mismatchedParentheses => "mismatched_parentheses"
  | unknownFunction => "unknown_function"
  | invalidCharacter => "invalid_character"
  | invalidExpression => "invalid_expression"
  | invalidValue => "invalid_value"
  | overflow => "overflow"

/-- The name of the kind: its identifier in upper case. -/
def name (kind : ErrorKind) : String :=
  String.ofList (kind.identifier.toList.map Char.toUpper)

def ofName? (name : String) : Option ErrorKind :=
  all.find? fun kind => kind.name == name

/-- The message of an error that says nothing but its kind. -/
def defaultMessage : ErrorKind → String
  | divisionByZero => "División por cero"
  | invalidDomain => "Dominio inválido"
  | invalidFactorialInput => "factorial requiere entero no negativo"
  | invalidAngleMode => "El modo debe ser 'rad' o 'deg'"
  | mismatchedParentheses => "Paréntesis desbalanceados"
  | unknownFunction => "Función desconocida"
  | invalidCharacter => "Carácter inválido"
  | invalidExpression => "Expresión inválida"
  | invalidValue => "Valor inválido para memoria"
  | overflow => "Desbordamiento de memoria"

end ErrorKind

structure CalcError where
  kind : ErrorKind
  message : String
  deriving DecidableEq

namespace CalcError

/-- The error of a kind with the message that the kind has by default. -/
def ofKind (kind : ErrorKind) : CalcError := ⟨kind, kind.defaultMessage⟩

/-- The error of a kind with an optional message; an empty one counts as none. -/
def ofMessage (kind : ErrorKind) (message : Option String) : CalcError :=
  match message with
  | some text => if text.isEmpty then ofKind kind else ⟨kind, text⟩
  | none => ofKind kind

/-- The error as it is shown to developers. -/
def describe (error : CalcError) : String :=
  "CalculatorError(" ++ error.kind.name ++ ", " ++ Text.quoted error.message ++ ")"

end CalcError

/-- Everything that can go wrong in a call of the library. -/
inductive Fault where
  /-- A calculation failed. -/
  | calculation (error : CalcError)
  /-- A text or a value is no number, or no format, where one is needed, or an integer has too
  many digits to be written. -/
  | malformed
  /-- A number is too large to be converted. -/
  | outOfRange
  /-- An operation is applied to the wrong number of operands. -/
  | misapplied
  deriving DecidableEq

/-- The failure of a kind with its default message. -/
def fail {α : Type} (kind : ErrorKind) : Except Fault α :=
  .error (.calculation (.ofKind kind))

/-- The failure of a kind with a message of its own. -/
def failWith {α : Type} (kind : ErrorKind) (message : String) : Except Fault α :=
  .error (.calculation ⟨kind, message⟩)

/-- A calculation that may fail, among calls that may go wrong in other ways. -/
def ofCalculation {α : Type} : Except CalcError α → Except Fault α
  | .ok value => .ok value
  | .error error => .error (.calculation error)

end SciCalc
