import SciCalc.Formula.Evaluation
import SciCalc.Outcome
import SciCalc.Precise.Arithmetic
import SciCalc.Precise.Display

/-! # The precise calculator

A formula is evaluated with at least twice as many places as digits are shown. The calculator
remembers the last formula that could be evaluated, so that more digits can be asked for. The
number of working digits changes before the evaluation, whether or not that succeeds.
-/

namespace SciCalc

/-- A precise calculator: the digits that it starts with, the digits that it adds on request, the
digits that it works with, and the last formula with its mode and value. -/
structure PreciseCalculator where
  initialDigits : Nat
  digitStep : Nat
  workingDigits : Nat
  last : Option (String × AngleMode × BigFloat)
  deriving DecidableEq

namespace PreciseCalculator

/-- No fewer digits than these are worked with or added. -/
def fewestDigits : Int := 8

def create (initialDigits digitStep : Int) : PreciseCalculator :=
  let initial := (max fewestDigits initialDigits).toNat
  ⟨initial, (max fewestDigits digitStep).toNat, initial, none⟩

/-- The digits that a calculator starts with if none are given. -/
abbrev defaultDigits : Int := 18

abbrev defaultStep : Int := 24

/-- The places with which a formula is evaluated for a number of digits. -/
def places (digits : Nat) : Nat := max 40 (2 * digits + 10)

/-- The value of a formula for a number of digits. -/
def value (digits : Nat) (mode : AngleMode) (formula : String) : Except Fault BigFloat :=
  Formula.evaluate (Precise.arithmetic (places digits)) mode formula

def canExpand (calculator : PreciseCalculator) : Bool := calculator.last.isSome

def lastValue (calculator : PreciseCalculator) : Option BigFloat :=
  calculator.last.map fun (_, _, value) => value

/-- Evaluates a formula with the working digits and remembers it if that succeeds. -/
def compute (calculator : PreciseCalculator) (mode : AngleMode) (formula : String) :
    Outcome PreciseCalculator :=
  match value calculator.workingDigits mode formula with
  | .error fault => .failed fault calculator
  | .ok x => .answer (.text (Precise.format x calculator.workingDigits))
      { calculator with last := some (formula, mode, x) }

/-- Evaluates a formula with the initial digits, in the mode that a value of any kind names. -/
def evaluate (calculator : PreciseCalculator) (formula : String) (mode : Datum) :
    Outcome PreciseCalculator :=
  let started := { calculator with workingDigits := calculator.initialDigits }
  match AngleMode.ofDatum mode with
  | .error fault => .failed fault started
  | .ok mode => started.compute mode formula

/-- Evaluates the last formula again with more digits. -/
def expand (calculator : PreciseCalculator) : Outcome PreciseCalculator :=
  match calculator.last with
  | none =>
    .failed (.calculation ⟨.invalidExpression, "No hay cálculo previo"⟩) calculator
  | some (formula, mode, _) =>
    let digits := calculator.workingDigits + calculator.digitStep
    let expanded := { calculator with workingDigits := digits }
    { expanded.compute mode formula with
      records := Record.about (.number (.int digits)) fun text =>
        .debug .precise ("Ampliando precisión a " ++ text ++ " dígitos") }

inductive Command where
  | evaluate (formula : String) (mode : Datum)
  | expand

def apply (calculator : PreciseCalculator) : Command → Outcome PreciseCalculator
  | .evaluate formula mode => calculator.evaluate formula mode
  | .expand => calculator.expand

end PreciseCalculator

end SciCalc
