import SciCalc.Decimal.Numeral
import SciCalc.Display.Rounding
import SciCalc.Display.Scientific

/-! # The display

A result is displayed with ten significant digits. Large and small numbers have a power of ten;
the others are rounded, written with a point and cut to ten digits in all. The display also
says which texts can be typed as a number, digit by digit.
-/

namespace SciCalc.Display

/-- A number without an exponent part. Numbers with a short enough text keep it. An integer comes
of rounding a double and has no more digits than that can have. -/
def plainText : Number → String
  | .int n => toString n
  | .float x =>
    let text := x.toText
    if text.toList.contains 'e' then String.ofList x.shortest.plainChars else text

/-- Cuts the fraction of a number so that it has at most ten digits, and takes the zeros at its
end away. A text without a point stays as it is. -/
def cutFraction (text : String) : String :=
  let cs := text.toList
  if cs.contains '.' then
    let whole := cs.takeWhile (· != '.')
    let fraction := Text.dropTrailing (· == '0') (cs.dropWhile (· != '.')).tail
    let room := Settings.displayDigits - (whole.filter (· != '-')).length
    let kept :=
      if room < fraction.length then Text.dropTrailing (· == '0') (fraction.take room)
      else fraction
    String.ofList (if kept.isEmpty then whole else whole ++ '.' :: kept)
  else text

/-- The display text of a number. -/
def format (number : Number) : Except Fault String :=
  match number.toDouble? with
  | none => .error .outOfRange
  | some x =>
    if x.isNan then .ok "Error"
    else if x.isInfinite then .ok (if x.isNegative then "-Infinity" else "Infinity")
    else if x.isZero then .ok "0"
    else if Settings.largeThreshold.isAtMost x.abs || x.abs.isLess Settings.smallThreshold ||
        x.abs.isLess Settings.exponentThreshold then .ok (scientific x)
    else (fun rounded => cutFraction (plainText rounded)) <$>
      roundToPrecision number Settings.displayDigits

def formatDouble (x : Double) : Except Fault String := format (.float x)

/-- The display text of a number, always with a power of ten. -/
def formatScientific (number : Number) : Except Fault String :=
  match number.toDouble? with
  | none => .error .outOfRange
  | some x => .ok (scientific x)

/-- Takes a minus sign at the start away. -/
def dropMinus : List Char → List Char
  | '-' :: rest => rest
  | cs => cs

/-- Whether a text can stand while a number is being typed: an optional minus, digits, and an
optional point with digits after it, any of which may be missing. -/
def isPartialInput (text : String) : Bool :=
  match (dropMinus text.toList).dropWhile Char.isDigit with
  | [] => true
  | '.' :: fraction => fraction.all Char.isDigit
  | _ => false

/-- The display text of a typed text: the text itself while it is being typed, the number that
it denotes, or zero. -/
def formatInput (text : String) : Except Fault String :=
  if isPartialInput text then .ok text
  else
    match Double.ofText? text with
    | none => .ok "0"
    | some x => if x.isNan then .ok "0" else formatDouble x

/-- How many significant digits a number has. Of an integer no more than 28 digits count. -/
def significantDigits (number : Number) : Except Fault Nat :=
  match number.toDouble? with
  | none => .error .outOfRange
  | some x =>
    if x.isZero || !x.isFinite then .ok 1
    else
      match number with
      | .int n => .ok (decimalLength (Decimal.ofNat 28 n.natAbs).digits)
      | .float x => .ok (decimalLength x.shortest.digits)

end SciCalc.Display
