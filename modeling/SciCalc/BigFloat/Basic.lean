import SciCalc.Double.Basic
import SciCalc.Numeric.SquareRoot

/-! # Binary floating-point numbers of any precision

A finite number is a mantissa, odd unless the number is zero, times a power of two; there is
one zero, there are two infinities and one value that is not a number. Exponents have no bounds,
so no power of two is computed unless the numbers that meet are of comparable size. Every
operation is the exact result rounded to a number of bits, ties to even.
-/

namespace SciCalc

/-- A floating-point number of any precision. -/
inductive BigFloat where
  | nan
  | inf (negative : Bool)
  | finite (mantissa exponent : Int)
  deriving DecidableEq, Inhabited

namespace BigFloat

def zero : BigFloat := finite 0 0

/-- The number `mantissa * 2 ^ exponent` with an odd mantissa. -/
def normal (negative : Bool) (mantissa : Nat) (exponent : Int) : BigFloat :=
  if mantissa = 0 then zero
  else
    let (odd, place) := oddPart (Nat.log2 mantissa) mantissa exponent
    finite (if negative then -(odd : Int) else odd) place

/-- The number `mantissa * 2 ^ exponent` rounded to `bits` bits. -/
def ofScaled (bits : Nat) (mantissa exponent : Int) : BigFloat :=
  let width := Nat.log2 mantissa.natAbs + 1
  let excess := width - bits
  normal (mantissa < 0) (roundDiv mantissa.natAbs (1 <<< excess)) (exponent + excess)

def ofInt (n : Int) : BigFloat := normal (n < 0) n.natAbs 0

/-- The fraction `num / den` rounded to `bits` bits: the quotient is computed with two bits
more, and its last bit says whether anything was cut off. -/
def ofFraction (bits : Nat) (negative : Bool) (num den : Nat) (exponent : Int) : BigFloat :=
  let shift := bits + 3 + Nat.log2 den - Nat.log2 num
  let quotient := (num <<< shift) / den
  let rest := if quotient * den = num <<< shift then 0 else 1
  let mantissa : Int := (2 * quotient + rest : Nat)
  ofScaled bits (if negative then -mantissa else mantissa) (exponent - shift - 1)

def ofDouble : Double → BigFloat
  | .nan => nan
  | .inf negative => inf negative
  | .finite negative mantissa exponent _ => normal negative mantissa exponent

/-- The number rounded to `bits` bits. -/
def round (bits : Nat) : BigFloat → BigFloat
  | finite mantissa exponent => ofScaled bits mantissa exponent
  | other => other

def isFinite : BigFloat → Bool
  | finite _ _ => true
  | _ => false

def isZero : BigFloat → Bool
  | finite mantissa _ => mantissa == 0
  | _ => false

def isNegative : BigFloat → Bool
  | nan => false
  | inf negative => negative
  | finite mantissa _ => mantissa < 0

def isPositive : BigFloat → Bool
  | nan => false
  | inf negative => !negative
  | finite mantissa _ => 0 < mantissa

/-- The exponent of the leading bit of a finite number other than zero. -/
def top : BigFloat → Int
  | finite mantissa exponent => Nat.log2 mantissa.natAbs + exponent
  | _ => 0

def neg : BigFloat → BigFloat
  | nan => nan
  | inf negative => inf (!negative)
  | finite mantissa exponent => finite (-mantissa) exponent

def abs : BigFloat → BigFloat
  | nan => nan
  | inf _ => inf false
  | finite mantissa exponent => finite mantissa.natAbs exponent

/-- Whether the magnitude of the first finite number is less than that of the second. Numbers
whose leading bits differ in place are told apart by these. -/
def isSmaller (left right : BigFloat) : Bool :=
  match left, right with
  | finite leftMantissa leftExponent, finite rightMantissa rightExponent =>
    if right.isZero then false
    else if left.isZero || left.top < right.top then true
    else if right.top < left.top then false
    else
      let (num, den) := scaleTwo leftMantissa.natAbs rightMantissa.natAbs
        (leftExponent - rightExponent)
      num < den
  | finite _ _, inf _ => true
  | _, _ => false

/-- Whether the number is an integer: an odd mantissa has no factor to spare for a negative
exponent. -/
def isInteger : BigFloat → Bool
  | finite mantissa exponent => mantissa == 0 || 0 ≤ exponent
  | _ => false

/-- Whether the number is an odd integer. A number with a positive exponent is even. -/
def isOddInteger : BigFloat → Bool
  | finite mantissa exponent => exponent == 0 && mantissa % 2 == 1
  | _ => false

/-- The greatest integer that is at most a finite number; for the others, zero. -/
def floor : BigFloat → Int
  | finite mantissa exponent =>
    if 0 ≤ exponent then mantissa <<< exponent.toNat
    else if Nat.log2 mantissa.natAbs < (-exponent).toNat then (if mantissa < 0 then -1 else 0)
    else mantissa >>> (-exponent).toNat
  | _ => 0

/-- The greatest integer that is at most the number, as a number rounded to `bits` bits. -/
def floorRounded (bits : Nat) (x : BigFloat) : BigFloat :=
  match x with
  | finite mantissa exponent =>
    if 0 ≤ exponent then ofScaled bits mantissa exponent else ofScaled bits x.floor 0
  | other => other

/-- The sum of two finite numbers, of which the first has the higher leading bit, rounded. If
the second lies wholly below the bits that count, only its sign matters. -/
def addBelow (bits : Nat) (mantissa exponent lowMantissa lowExponent : Int) : BigFloat :=
  let reach := exponent - (bits + 4)
  let lowTop : Int := Nat.log2 lowMantissa.natAbs + lowExponent
  if lowTop + 2 ≤ reach then
    ofScaled bits (2 * (mantissa <<< (bits + 4)) + lowMantissa.sign) (reach - 1)
  else if lowExponent ≤ exponent then
    ofScaled bits ((mantissa <<< (exponent - lowExponent).toNat) + lowMantissa) lowExponent
  else ofScaled bits (mantissa + (lowMantissa <<< (lowExponent - exponent).toNat)) exponent

/-- The sum, rounded. Opposite infinities have no sum. -/
def add (bits : Nat) (left right : BigFloat) : BigFloat :=
  match left, right with
  | nan, _ | _, nan => nan
  | inf leftNegative, inf rightNegative =>
    if leftNegative = rightNegative then inf leftNegative else nan
  | inf negative, _ | _, inf negative => inf negative
  | finite leftMantissa leftExponent, finite rightMantissa rightExponent =>
    if leftMantissa = 0 then right.round bits
    else if rightMantissa = 0 then left.round bits
    else if right.top ≤ left.top then
      addBelow bits leftMantissa leftExponent rightMantissa rightExponent
    else addBelow bits rightMantissa rightExponent leftMantissa leftExponent

def sub (bits : Nat) (left right : BigFloat) : BigFloat := left.add bits right.neg

/-- The product, rounded. An infinity times zero is not a number. -/
def mul (bits : Nat) (left right : BigFloat) : BigFloat :=
  match left, right with
  | nan, _ | _, nan => nan
  | finite leftMantissa leftExponent, finite rightMantissa rightExponent =>
    ofScaled bits (leftMantissa * rightMantissa) (leftExponent + rightExponent)
  | left, right =>
    if left.isZero || right.isZero then nan else inf (left.isNegative != right.isNegative)

/-- The quotient, rounded, by a number other than zero. Infinities have no quotient. -/
def div (bits : Nat) (left right : BigFloat) : BigFloat :=
  match left, right with
  | nan, _ | _, nan => nan
  | inf _, inf _ => nan
  | inf negative, _ => inf (negative != right.isNegative)
  | _, inf _ => zero
  | finite leftMantissa leftExponent, finite rightMantissa rightExponent =>
    if rightMantissa = 0 then nan
    else if leftMantissa = 0 then zero
    else ofFraction bits (left.isNegative != right.isNegative) leftMantissa.natAbs
      rightMantissa.natAbs (leftExponent - rightExponent)

/-- The square root, rounded; negative numbers have none. -/
def sqrt (bits : Nat) : BigFloat → BigFloat
  | nan => nan
  | inf negative => if negative then nan else inf false
  | finite mantissa exponent =>
    if mantissa < 0 then nan
    else if mantissa = 0 then zero
    else
      let (root, rootExponent) := scaledRoot (bits + 4) mantissa.natAbs exponent
      ofScaled bits root rootExponent

end BigFloat

end SciCalc
