import SciCalc.Double.Basic
import SciCalc.Numeric.SquareRoot

/-! # Arithmetic of doubles

Sum, difference, product, quotient and square root are the exact results rounded once. The
sign of an exact zero follows the usual rules: a sum is negative zero only when both operands
are, a product or quotient takes the sign that the signs of its operands give.
-/

namespace SciCalc.Double

/-- The sum, rounded. Opposite infinities have no sum. -/
def add : Double → Double → Double
  | nan, _ | _, nan => nan
  | inf left, inf right => if left = right then inf left else nan
  | inf left, _ => inf left
  | _, inf right => inf right
  | left, right => ofRat (left.isNegative && right.isNegative) (left.toRat + right.toRat)

def sub (left right : Double) : Double := left.add right.neg

/-- The product, rounded. An infinity times zero is not a number. -/
def mul (left right : Double) : Double :=
  let negative := left.isNegative != right.isNegative
  match left, right with
  | nan, _ | _, nan => nan
  | inf _, other | other, inf _ => if other.isZero then nan else inf negative
  | left, right => ofRat negative (left.toRat * right.toRat)

/-- The quotient, rounded. Zero over zero and infinity over infinity are not numbers; any
other quotient by zero is infinite. -/
def div (left right : Double) : Double :=
  let negative := left.isNegative != right.isNegative
  match left, right with
  | nan, _ | _, nan => nan
  | inf _, inf _ => nan
  | inf _, _ => inf negative
  | _, inf _ => zero negative
  | left, right =>
    if right.isZero then (if left.isZero then nan else inf negative)
    else ofRat negative (left.toRat / right.toRat)

/-- The square root, rounded; negative zero is its own root, and other negative numbers have
none. -/
def sqrt : Double → Double
  | nan => nan
  | inf negative => if negative then nan else inf false
  | finite negative mantissa exponent canonical =>
    if mantissa = 0 then finite negative mantissa exponent canonical
    else if negative then nan
    else
      let (root, rootExponent) := scaledRoot 60 mantissa exponent
      ofScaled root rootExponent

/-- The greatest integer that is at most the double; for an infinity or what is not a number,
zero. -/
def floor (x : Double) : Int := x.toRat.floor

/-- The integer nearest to the double, ties to even; for an infinity or what is not a number,
zero. -/
def round (x : Double) : Int :=
  let nearest : Int := roundDiv x.toRat.num.natAbs x.toRat.den
  if x.isNegative then -nearest else nearest

end SciCalc.Double
