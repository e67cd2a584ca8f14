import SciCalc.Formula.Arithmetic
import SciCalc.Outcome
import SciCalc.Settings

/-! # The state of a session

The number being typed, the formula entered so far, the last result, the angle mode, the depth
of open parentheses and the last error. Writing a value of the wrong kind changes nothing: a
result or a depth is rejected with a warning, an angle mode with an error, and so is an integer of
too many digits where a text is written. Writing the number being typed clears the error.
-/

namespace SciCalc

structure State where
  inputBuffer : String
  expression : String
  lastResult : Option Double
  angleMode : AngleMode
  parenthesisDepth : Nat
  error : Option String
  deriving DecidableEq

namespace State

def initial : State := ⟨"", "", none, .default, 0, none⟩

/-- Replaces the number being typed and clears the error. -/
def setInputBuffer (state : State) (text : String) : State :=
  { state with inputBuffer := text, error := none }

/-- Empties the number being typed and clears the error. -/
def clearInputBuffer (state : State) : State := state.setInputBuffer ""

/-- Takes the last character of the number being typed away. -/
def backspace (state : State) : State :=
  { state with inputBuffer := String.ofList state.inputBuffer.toList.dropLast }

def setExpression (state : State) (text : String) : State := { state with expression := text }

/-- The finite double that a value of any kind is, if it is one. -/
def resultOf? : Datum → Option Double
  | .number value => value.toFinite?
  | _ => none

/-- Replaces the last result by a finite number. -/
def setLastResult (state : State) (value : Datum) : Outcome State :=
  match resultOf? value with
  | some x => .silent { state with lastResult := some x }
  | none => ⟨.ok .nothing, state,
      Record.about value fun text => .warning .state ("Resultado rechazado: " ++ text)⟩

/-- The depth of parentheses that a value of any kind is, if it is one. -/
def depthOf? : Datum → Option Nat
  | .number (.int n) => if 0 ≤ n && n ≤ Settings.greatestDepth then some n.toNat else none
  | _ => none

/-- Replaces the depth of open parentheses. -/
def setParenthesisDepth (state : State) (value : Datum) : Outcome State :=
  match depthOf? value with
  | some depth => .silent { state with parenthesisDepth := depth }
  | none => ⟨.ok .nothing, state,
      Record.about value fun text => .warning .state ("Nivel de paréntesis rechazado: " ++ text)⟩

def setAngleMode (state : State) (value : Datum) : Outcome State :=
  match AngleMode.ofDatum value with
  | .ok mode => .silent { state with angleMode := mode }
  | .error fault => .failed fault state

/-- Changes to the other angle mode and answers its name. -/
def toggleAngleMode (state : State) : Outcome State :=
  .answer (.text state.angleMode.toggle.name) { state with angleMode := state.angleMode.toggle }

/-- Writes the text of a value of any kind; of a value that has none nothing is written. -/
def writeText (state : State) (value : Datum) (write : String → State) : Outcome State :=
  match value.toText with
  | .ok text => .silent (write text)
  | .error fault => .failed fault state

def setError (state : State) (message : Option String) : State := { state with error := message }

inductive Command where
  | setInputBuffer (value : Datum)
  | clearInputBuffer
  | backspace
  | setExpression (value : Datum)
  | setLastResult (value : Datum)
  | setAngleMode (value : Datum)
  | toggleAngleMode
  | setParenthesisDepth (value : Datum)
  | setError (message : Option String)
  | clearError
  | reset

def apply (state : State) : Command → Outcome State
  | .setInputBuffer value => state.writeText value state.setInputBuffer
  | .clearInputBuffer => .silent state.clearInputBuffer
  | .backspace => .silent state.backspace
  | .setExpression value => state.writeText value state.setExpression
  | .setLastResult value => state.setLastResult value
  | .setAngleMode value => state.setAngleMode value
  | .toggleAngleMode => state.toggleAngleMode
  | .setParenthesisDepth value => state.setParenthesisDepth value
  | .setError message => .silent (state.setError message)
  | .clearError => .silent (state.setError none)
  | .reset => .silent initial

end State

end SciCalc
