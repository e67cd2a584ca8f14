import SciCalc.Double.Arithmetic
import SciCalc.Enclosure.Exponential
import SciCalc.Enclosure.Trigonometric

/-! # Elementary functions of doubles

Each function is the exact value rounded once. A power or an exponential beyond the range, and
a power that does not exist, are reported as an exception; what takes its place is for the
caller to say. Angles are in radians.
-/

namespace SciCalc.Double

/-- Why an elementary function has no result. -/
inductive Exception where
  /-- The result lies beyond the range. -/
  | overflow
  /-- The function has no finite value at its arguments. -/
  | invalid
  deriving DecidableEq

/-- Rounds a real number that can be enclosed to a double. -/
def ofEnclosure (enclose : Nat → Option Enclosure) : Double :=
  Enclosure.settle enclose ofScaled nan 53

def signedMantissa (negative : Bool) (mantissa : Nat) : Int :=
  if negative then -(mantissa : Int) else mantissa

/-- The sine; a zero keeps its sign, and only finite angles have a sine. -/
def sin : Double → Double
  | finite negative mantissa exponent canonical =>
    if mantissa = 0 then finite negative mantissa exponent canonical
    else ofEnclosure fun bits =>
      some (Enclosure.sin bits (signedMantissa negative mantissa) exponent)
  | _ => nan

/-- The cosine; only finite angles have one. -/
def cos : Double → Double
  | finite negative mantissa exponent _ =>
    if mantissa = 0 then ofNat 1
    else ofEnclosure fun bits =>
      some (Enclosure.cos bits (signedMantissa negative mantissa) exponent)
  | _ => nan

/-- The tangent; a zero keeps its sign, and only finite angles have a tangent. -/
def tan : Double → Double
  | finite negative mantissa exponent canonical =>
    if mantissa = 0 then finite negative mantissa exponent canonical
    else ofEnclosure fun bits =>
      Enclosure.tan? bits (signedMantissa negative mantissa) exponent
  | _ => nan

/-- The natural logarithm of a positive number; the logarithm of infinity is infinite. -/
def ln : Double → Double
  | finite negative mantissa exponent _ =>
    if negative || mantissa = 0 then nan
    else ofEnclosure fun bits => some (Enclosure.ln bits mantissa exponent)
  | inf negative => if negative then nan else inf false
  | nan => nan

/-- The decimal logarithm of a positive number; the logarithm of infinity is infinite. -/
def log10 : Double → Double
  | finite negative mantissa exponent _ =>
    if negative || mantissa = 0 then nan
    else ofEnclosure fun bits => Enclosure.log10? bits mantissa exponent
  | inf negative => if negative then nan else inf false
  | nan => nan

/-- The exponential; beyond the range it is an exception. -/
def exp : Double → Except Exception Double
  | finite negative mantissa exponent _ =>
    let result := if mantissa = 0 then ofNat 1
      else ofEnclosure fun bits =>
        some (Enclosure.exp bits (Enclosure.exactly (signedMantissa negative mantissa) exponent))
    if result.isInfinite then .error .overflow else .ok result
  | inf negative => .ok (if negative then zero false else inf false)
  | nan => .ok nan

/-- The power of a positive number to a finite exponent other than zero. -/
def positivePower (mantissa : Nat) (exponent : Int) (power powerExponent : Int) : Double :=
  match Enclosure.exactPower? 53 mantissa exponent power powerExponent with
  | some (result, resultExponent) => ofScaled result resultExponent
  | none => ofEnclosure fun bits =>
      some (Enclosure.pow bits mantissa exponent power powerExponent)

/-- The power of two finite numbers. The sign is negative for a negative base and an odd
exponent; a negative base has no power to an exponent that is no integer, and zero none to a
negative exponent. -/
def finitePower (base exponent : Double) : Except Exception Double :=
  match base, exponent with
  | finite negative mantissa place _, finite negativePower power powerPlace _ =>
    if power = 0 then .ok (ofNat 1)
    else if mantissa = 0 then
      if negativePower then .error .invalid
      else .ok (zero (negative && exponent.isOddInteger))
    else if negative && !exponent.isInteger then .error .invalid
    else
      let magnitude := positivePower mantissa place (signedMantissa negativePower power) powerPlace
      let result := if negative && exponent.isOddInteger then magnitude.neg else magnitude
      if result.isInfinite then .error .overflow else .ok result
  | _, _ => .ok nan

/-- The power. Anything to the power zero is one, and one to any power is one; infinities count
as magnitudes above all others. -/
def pow (base exponent : Double) : Except Exception Double :=
  let one := ofNat 1
  match base, exponent with
  | nan, _ => .ok (if exponent.isZero then one else nan)
  | _, nan => .ok (if base.sameValue one then one else nan)
  | inf negative, _ =>
    if exponent.isZero then .ok one
    else
      let sign := negative && exponent.isOddInteger
      .ok (if exponent.isNegative then zero sign else inf sign)
  | finite _ _ _ _, inf negativePower =>
    if base.abs.sameValue one then .ok one
    else .ok (if one.isLess base.abs != negativePower then inf false else zero false)
  | finite _ _ _ _, finite _ _ _ _ => finitePower base exponent

end SciCalc.Double
