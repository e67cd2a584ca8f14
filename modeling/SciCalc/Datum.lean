import SciCalc.Decimal.Numeral
import SciCalc.Decimal.Shortest
import SciCalc.Failure

/-! # Values of any kind

Some keys of the calculator accept whatever they are given and look at its kind: numbers,
integers, truth values, texts, nothing at all, or an empty list. `Number` holds the two kinds
of real numbers, `Datum` all of them. All values have a text but integers of too many digits.
-/

namespace SciCalc

/-- A real number: an integer of any size or a double. -/
inductive Number where
  | int (value : Int)
  | float (value : Double)
  deriving DecidableEq

namespace Number

/-- The integer converted to a double, or the double itself; an integer that would be infinite
cannot be converted. -/
def toDouble? : Number → Option Double
  | float x => some x
  | int n =>
    let x := Double.ofInt n
    if x.isFinite then some x else none

/-- The number if it is finite as a double. -/
def toFinite? (number : Number) : Option Double :=
  number.toDouble?.filter Double.isFinite

/-- The number written out: an integer in decimal digits, a double by its shortest text. An
integer of too many digits is not written. -/
def toText : Number → Except Fault String
  | int n => if Numeral.isWritable n then .ok (toString n) else .error .malformed
  | float x => .ok x.toText

end Number

inductive Datum where
  | nothing
  | truth (value : Bool)
  | number (value : Number)
  | text (value : String)
  | emptyList
  deriving DecidableEq

namespace Datum

def float (x : Double) : Datum := number (.float x)

def ofDouble? : Option Double → Datum
  | some x => float x
  | none => nothing

/-- The value as it is shown to developers, with texts in quotes. -/
def describe : Datum → Except Fault String
  | nothing => .ok "None"
  | truth true => .ok "True"
  | truth false => .ok "False"
  | number value => value.toText
  | text value => .ok (Text.quoted value)
  | emptyList => .ok "[]"

/-- The value as a text; a text is itself. -/
def toText : Datum → Except Fault String
  | text value => .ok value
  | other => other.describe

end Datum

end SciCalc
