import SciCalc.Decimal.Basic

/-! # The shortest decimal that reads back

A double is written with the fewest digits from which it can be read again. For one digit, two
digits and so on up to seventeen, the two decimals next to the double are tried; the first
count for which one of them reads back is used, and of two that do the nearer one, of two
equally near the even one. Were none of them to read back, the digits would be those of the
exact value.

Numbers whose leading digit stands for a power of ten from -4 to 15 are written with a point
and at least one digit after it; the others with a mantissa and a power of ten.
-/

namespace SciCalc

namespace Decimal

/-- The exact value of a finite double as a decimal: a negative power of two is a negative
power of ten times a power of five. -/
def exact (mantissa : Nat) (exponent : Int) : Decimal :=
  if 0 ≤ exponent then ⟨false, mantissa <<< exponent.toNat, 0⟩
  else ⟨false, mantissa * Nat.pow 5 (-exponent).toNat, exponent⟩

/-- Of the two decimals of the given place next to `num / den`, the one that reads back as
`target`; the nearer one if both do. -/
def readingBack? (target : Double) (num den : Nat) (place : Int) : Option Decimal :=
  let (scaledNum, scaledDen) := scaleTen num den (-place)
  let lower : Decimal := ⟨false, scaledNum / scaledDen, place⟩
  let upper : Decimal := ⟨false, scaledNum / scaledDen + 1, place⟩
  let lowerReads := lower.toDouble == target
  let upperReads := upper.toDouble == target
  if lowerReads && upperReads then
    some (if roundDiv scaledNum scaledDen = lower.digits then lower else upper)
  else if lowerReads then some lower
  else if upperReads then some upper
  else none

/-- The first place, from the given one downwards, at which a decimal reads back. -/
def firstReadingBack? (target : Double) (num den : Nat) : Nat → Int → Option Decimal
  | 0, _ => none
  | fuel + 1, place =>
    match readingBack? target num den place with
    | some found => some found
    | none => firstReadingBack? target num den fuel (place - 1)

/-- The shortest decimal that reads back as the double with the given mantissa and exponent. -/
def shortestMagnitude (mantissa : Nat) (exponent : Int)
    (canonical : IsCanonical mantissa exponent) : Decimal :=
  let (num, den) := scaleTwo mantissa 1 exponent
  let target := Double.finite false mantissa exponent canonical
  ((firstReadingBack? target num den 17 (decade num den)).getD (exact mantissa exponent)).normalize

end Decimal

namespace Double

/-- The shortest decimal that reads back as a finite double; zero for the others. -/
def shortest : Double → Decimal
  | finite negative mantissa exponent canonical =>
    if mantissa = 0 then ⟨negative, 0, 0⟩
    else { Decimal.shortestMagnitude mantissa exponent canonical with negative := negative }
  | _ => ⟨false, 0, 0⟩

/-- The plain form keeps a digit after the point. -/
def pointedChars (d : Decimal) : List Char :=
  if 0 ≤ d.exponent then d.plainChars ++ ['.', '0'] else d.plainChars

/-- The shortest text that reads back as the double. -/
def toText (x : Double) : String :=
  match x with
  | nan => "nan"
  | inf negative => if negative then "-inf" else "inf"
  | finite _ _ _ _ =>
    let d := x.shortest
    let top := d.leadingExponent
    String.ofList (if -4 ≤ top && top < 16 then pointedChars d else d.scientificChars)

end Double

end SciCalc
