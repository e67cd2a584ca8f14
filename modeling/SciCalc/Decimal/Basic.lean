import SciCalc.Double.Basic

/-! # Decimal numbers

A decimal number is a sign, a natural number and a power of ten that it is multiplied by. This
module takes doubles to decimals by rounding to a number of significant digits, and decimals to
the nearest doubles.
-/

namespace SciCalc

/-- The number `digits * 10 ^ exponent`, with a sign. -/
structure Decimal where
  negative : Bool
  digits : Nat
  exponent : Int
  deriving DecidableEq, Inhabited

namespace Decimal

def toRat (d : Decimal) : Rat :=
  let (num, den) := scaleTen d.digits 1 d.exponent
  mkRat (if d.negative then -(num : Int) else num) den

/-- The nearest double, ties to even. A number of `length` digits that stands at `10 ^ 309` or
above is beyond the doubles, and one below `10 ^ -324` is nearer to zero than to any other. -/
def toDouble (d : Decimal) : Double :=
  let length : Int := decimalLength d.digits
  if d.digits = 0 then Double.zero d.negative
  else if 309 < length + d.exponent then Double.inf d.negative
  else if length + d.exponent ≤ -324 then Double.zero d.negative
  else
    let (num, den) := scaleTen d.digits 1 d.exponent
    Double.ofFraction d.negative num den

/-- The positive fraction `num / den` rounded to `count` significant digits, ties to even. The
digits of the result are always `count` in number. -/
def ofFraction (count : Nat) (negative : Bool) (num den : Nat) : Decimal :=
  let place := decade num den + 1 - count
  let (scaledNum, scaledDen) := scaleTen num den (-place)
  let digits := roundDiv scaledNum scaledDen
  if digits = tenPow count then ⟨negative, tenPow (count - 1), place + 1⟩
  else ⟨negative, digits, place⟩

/-- A finite double rounded to `count` significant digits, ties to even. -/
def ofDouble (count : Nat) (x : Double) : Decimal :=
  let (num, den) := x.magnitude
  if num = 0 then ⟨x.isNegative, 0, 0⟩ else ofFraction count x.isNegative num den

/-- Divides by ten as long as that leaves a natural number, at most `fuel` times. -/
def stripZeros : Nat → Nat → Int → Nat × Int
  | 0, digits, exponent => (digits, exponent)
  | fuel + 1, digits, exponent =>
    if digits % 10 = 0 then stripZeros fuel (digits / 10) (exponent + 1) else (digits, exponent)

/-- The same number without zeros at the end of its digits; zero becomes the digit zero. -/
def normalize (d : Decimal) : Decimal :=
  if d.digits = 0 then ⟨d.negative, 0, 0⟩
  else
    let (digits, exponent) := stripZeros (decimalLength d.digits) d.digits d.exponent
    ⟨d.negative, digits, exponent⟩

/-- A natural number as a decimal of at most `count` significant digits, ties to even, without
zeros at the end. -/
def ofNat (count n : Nat) : Decimal :=
  if decimalLength n ≤ count then normalize ⟨false, n, 0⟩
  else normalize (ofFraction count false n 1)

def digitChars (d : Decimal) : List Char := Nat.toDigits 10 d.digits

/-- The decimal exponent of the first digit. -/
def leadingExponent (d : Decimal) : Int := d.exponent + d.digitChars.length - 1

def signChars (d : Decimal) : List Char := if d.negative then ['-'] else []

/-- The decimal without an exponent part: zeros fill the places between the digits and the
point, and a number without a fraction has no point. -/
def plainChars (d : Decimal) : List Char :=
  let digits := d.digitChars
  let point := d.leadingExponent + 1
  d.signChars ++
    if 0 ≤ d.exponent then digits ++ List.replicate d.exponent.toNat '0'
    else if point ≤ 0 then '0' :: '.' :: (List.replicate (-point).toNat '0' ++ digits)
    else digits.take point.toNat ++ '.' :: digits.drop point.toNat

/-- The exponent part of a scientific text: a mark, a sign and at least `width` digits. -/
def exponentChars (width : Nat) (exponent : Int) : List Char :=
  let digits := Nat.toDigits 10 exponent.natAbs
  'e' :: (if exponent < 0 then '-' else '+') ::
    (List.replicate (width - digits.length) '0' ++ digits)

/-- The mantissa of a scientific text: one digit, then a point and the others if there are
any. -/
def mantissaChars : List Char → List Char
  | first :: second :: rest => first :: '.' :: second :: rest
  | digits => digits

/-- The decimal with an exponent part of at least two digits. -/
def scientificChars (d : Decimal) : List Char :=
  d.signChars ++ mantissaChars d.digitChars ++ exponentChars 2 d.leadingExponent

end Decimal

end SciCalc
