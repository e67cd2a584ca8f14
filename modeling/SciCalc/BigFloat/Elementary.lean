import SciCalc.BigFloat.Basic
import SciCalc.Enclosure.Gamma
import SciCalc.Enclosure.Trigonometric

/-! # Elementary functions of any precision

Each function is the exact value rounded to a number of bits. Only the decimal logarithm is not:
it is the quotient of two natural logarithms, each rounded to twenty more bits.

Exponentials, powers and factorials of numbers beyond `2 ^ reach` would have exponents that
cannot be written down. They count as infinite, or as zero if they are as small as that, and
angles beyond `2 ^ reach` have no functions.
-/

namespace SciCalc.BigFloat

/-- Rounds a real number that can be enclosed to `bits` bits. -/
def ofEnclosure (bits : Nat) (enclose : Nat → Option Enclosure) : BigFloat :=
  Enclosure.settle enclose (ofScaled bits) nan bits

def one : BigFloat := finite 1 0

/-- Numbers beyond two to this power are out of reach of the functions that need every bit
before the point. -/
def reach : Int := 16777216

/-- Whether a finite number is out of reach. -/
def isOutOfReach (x : BigFloat) : Bool := reach < x.top

/-- A function of an angle, given by its value at zero and by enclosures at other angles. Only
finite angles have one. -/
def ofAngle (bits : Nat) (atZero : BigFloat) (enclose : Nat → Int → Int → Option Enclosure)
    (x : BigFloat) : BigFloat :=
  match x with
  | finite mantissa exponent =>
    if mantissa = 0 then atZero
    else if x.isOutOfReach then nan
    else ofEnclosure bits fun working => enclose working mantissa exponent
  | _ => nan

def sin (bits : Nat) : BigFloat → BigFloat :=
  ofAngle bits zero fun working mantissa exponent =>
    some (Enclosure.sin working mantissa exponent)

def cos (bits : Nat) : BigFloat → BigFloat :=
  ofAngle bits one fun working mantissa exponent =>
    some (Enclosure.cos working mantissa exponent)

def tan (bits : Nat) : BigFloat → BigFloat := ofAngle bits zero Enclosure.tan?

/-- The number π divided by 180: how many radians one degree has. -/
def degree (bits : Nat) : BigFloat :=
  ofEnclosure bits fun working =>
    Enclosure.div? working ⟨Enclosure.piPlaces working, 1, -working⟩ (Enclosure.exactly 180 0)

def ln (bits : Nat) : BigFloat → BigFloat
  | nan => nan
  | inf negative => if negative then nan else inf false
  | finite mantissa exponent =>
    if mantissa ≤ 0 then nan
    else ofEnclosure bits fun working => some (Enclosure.ln working mantissa.natAbs exponent)

def log10 (bits : Nat) (x : BigFloat) : BigFloat :=
  (x.ln (bits + 20)).div bits ((ofInt 10).ln (bits + 20))

def exp (bits : Nat) (x : BigFloat) : BigFloat :=
  match x with
  | nan => nan
  | inf negative => if negative then zero else inf false
  | finite mantissa exponent =>
    if mantissa = 0 then one
    else if x.isOutOfReach then (if mantissa < 0 then zero else inf false)
    else ofEnclosure bits fun working =>
      some (Enclosure.exp working (Enclosure.exactly mantissa exponent))

/-- The power of an infinity or to an infinity, where the base is a magnitude other than one. -/
def infinitePower (baseIsLarge exponentIsPositive : Bool) : BigFloat :=
  if baseIsLarge = exponentIsPositive then inf false else zero

/-- The power of the positive number `mantissa * 2 ^ exponent`, other than one, to the number
`power * 2 ^ powerExponent`, other than zero. The exponent of the result has about as many bits
as the two factors of its logarithm together. -/
def positivePower (bits mantissa : Nat) (exponent power powerExponent : Int) : BigFloat :=
  let place := Nat.log2 mantissa + exponent
  if reach < (finite power powerExponent).top + Nat.log2 place.natAbs then
    infinitePower (0 ≤ place) (0 < power)
  else
    match Enclosure.exactPower? bits mantissa exponent power powerExponent with
    | some (result, resultExponent) => ofScaled bits result resultExponent
    | none => ofEnclosure bits fun working =>
        some (Enclosure.pow working mantissa exponent power powerExponent)

/-- The power. Anything to the power zero is one, and one to any power is one. A negative base
has powers to integers only. -/
def pow (bits : Nat) (base exponent : BigFloat) : BigFloat :=
  if exponent.isZero || base == one then one
  else
    match base, exponent with
    | nan, _ | _, nan => nan
    | inf negative, exponent =>
      if negative && !exponent.isInteger then nan
      else
        let magnitude := infinitePower true exponent.isPositive
        if negative && exponent.isOddInteger then magnitude.neg else magnitude
    | base@(finite _ _), inf negative =>
      if base.isNegative then nan else infinitePower (one.isSmaller base) !negative
    | base@(finite mantissa place), exponent@(finite power powerPlace) =>
      if base.isZero then (if exponent.isNegative then inf false else zero)
      else if base.isNegative && !exponent.isInteger then nan
      else
        let magnitude :=
          if base.abs == one then one
          else positivePower bits mantissa.natAbs place power powerPlace
        if base.isNegative && exponent.isOddInteger then magnitude.neg else magnitude

/-- The product of `count` successive natural numbers from `next` on. -/
def product : (count : Nat) → (next : Nat) → Nat
  | 0, _ => 1
  | count + 1, next => next * product count (next + 1)

/-- Up to this number factorials are multiplied out. -/
def greatestProduct : Nat := 5000

/-- The factorial of a number that is a natural number; of a large one, the exponential of the
rounded logarithm of the gamma function. -/
def factorial (bits : Nat) (x : BigFloat) : BigFloat :=
  if x.isOutOfReach then inf false
  else
    let n := x.floor.toNat
    if n ≤ greatestProduct then ofScaled bits (product n 1) 0
    else (ofEnclosure bits fun working => some (Enclosure.lnGamma working (n + 1))).exp bits

end SciCalc.BigFloat
