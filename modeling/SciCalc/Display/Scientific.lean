import SciCalc.Decimal.Shortest
import SciCalc.Settings
import SciCalc.Text.Blank

/-! # Numbers displayed with a power of ten

A number is rounded to ten significant digits and written with one digit before the point and a
power of ten. Three clean-ups follow: zeros at the end of the mantissa go, then a point without
digits after it, then zeros at the start of the exponent.
-/

namespace SciCalc.Display

/-- The mantissa and the exponent part of a scientific text. -/
def splitExponent (cs : List Char) : List Char × List Char :=
  (cs.takeWhile (· != 'e'), cs.dropWhile (· != 'e'))

/-- Takes the zeros at the end of the fraction away, if there is a fraction. -/
def stripMantissaZeros (cs : List Char) : List Char :=
  let (mantissa, exponent) := splitExponent cs
  if mantissa.contains '.' && !exponent.isEmpty then
    Text.dropTrailing (· == '0') mantissa ++ exponent
  else cs

/-- Takes a point without digits after it away. -/
def dropDanglingPoint (cs : List Char) : List Char :=
  let (mantissa, exponent) := splitExponent cs
  if mantissa.getLast? == some '.' then mantissa.dropLast ++ exponent else cs

/-- The digits without zeros at the start; the last digit stays. -/
def dropLeadingZeros : List Char → List Char
  | '0' :: next :: rest => dropLeadingZeros (next :: rest)
  | digits => digits

/-- Takes the zeros at the start of the exponent away. -/
def stripExponentPadding (cs : List Char) : List Char :=
  match splitExponent cs with
  | (mantissa, mark :: sign :: digits) => mantissa ++ mark :: sign :: dropLeadingZeros digits
  | _ => cs

/-- The three clean-ups in their order. -/
def cleanScientific (cs : List Char) : List Char :=
  stripExponentPadding (dropDanglingPoint (stripMantissaZeros cs))

/-- A finite double with one digit before the point, `places` digits after it and an exponent of
at least two digits. -/
def paddedScientific (places : Nat) (x : Double) : List Char :=
  let d := Decimal.ofDouble (places + 1) x
  if d.digits = 0 then
    d.signChars ++ Decimal.mantissaChars (List.replicate (places + 1) '0') ++
      Decimal.exponentChars 2 0
  else d.scientificChars

/-- The display text with a power of ten. -/
def scientific (x : Double) : String :=
  if x.isFinite then
    String.ofList (cleanScientific (paddedScientific (min (Settings.displayDigits - 1) 9) x))
  else x.toText

end SciCalc.Display
