import SciCalc.Decimal.Numeral
import SciCalc.Double.Elementary
import SciCalc.Formula.Arithmetic

/-! # Standard arithmetic

The operations of a formula on doubles. Errors of domain are reported; a result beyond the
range is an infinity, which the display shows and the session refuses.
-/

namespace SciCalc.Standard

def pi : Double := Double.ofFraction false 884279719003555 281474976710656

/-- Half of a turn in degrees. -/
def straightAngle : Double := Double.ofNat 180

def toRadians (degrees : Double) : Double := degrees.mul (pi.div straightAngle)

def toDegrees (radians : Double) : Double := radians.mul (straightAngle.div pi)

/-- An angle in the given mode as an angle in radians. -/
def angle (mode : AngleMode) (x : Double) : Double :=
  match mode with
  | .degrees => toRadians x
  | .radians => x

/-- The quotient; a zero of either sign is no divisor. -/
def divide (left right : Double) : Except CalcError Double :=
  if right.isZero then .error .divisionByZero else .ok (left.div right)

/-- The infinity that takes the place of a power beyond the range: negative for a base with a
negative sign and an odd exponent. -/
def signedInfinity (base exponent : Double) : Double :=
  .inf (base.isNegative && exponent.isOddInteger)

/-- The power. Beyond the range, and for zero to a negative exponent, it is an infinity; a
negative base has no power to an exponent that is no integer. -/
def power (base exponent : Double) : Double :=
  match base.pow exponent with
  | .ok result => result
  | .error .overflow => signedInfinity base exponent
  | .error .invalid => if base.isZero then signedInfinity base exponent else .nan

/-- The exponential; beyond the range it is infinite. -/
def exp (x : Double) : Double :=
  match x.exp with
  | .ok result => result
  | .error _ => .inf false

/-- The natural logarithm of a number that is not zero or negative. -/
def ln (x : Double) : Except CalcError Double :=
  if x.isAtMost (Double.zero false) then .error (.logarithmDomain .ln) else .ok x.ln

/-- The decimal logarithm of a number that is not zero or negative. -/
def log (x : Double) : Except CalcError Double :=
  if x.isAtMost (Double.zero false) then .error (.logarithmDomain .log) else .ok x.log10

/-- The square root of a number that is not negative. -/
def sqrt (x : Double) : Except CalcError Double :=
  if x.isLess (Double.zero false) then .error .squareRootDomain else .ok x.sqrt

/-- A product and the next factor, the factor rounded and then the product. -/
def timesNat (product : Double) (factor : Nat) : Double := product.mul (Double.ofNat factor)

/-- The products with `count` successive natural numbers from `next` on, one for each
multiplication. They stop as soon as one is infinite: an infinity stays what it is under any
further factor. -/
def productsFrom : (count : Nat) → (next : Nat) → (product : Double) → List Double
  | 0, _, _ => []
  | count + 1, next, product =>
    let extended := timesNat product next
    if extended.isInfinite then [extended]
    else extended :: productsFrom count (next + 1) extended

/-- The last of the products. -/
def productFrom (count next : Nat) (product : Double) : Double :=
  (productsFrom count next product).getLastD product

theorem productFrom_succ (count next : Nat) (product : Double) :
    productFrom (count + 1) next product =
      if (timesNat product next).isInfinite then timesNat product next
      else productFrom count (next + 1) (timesNat product next) := by
  rw [productFrom, productsFrom]
  split
  · rfl
  · rw [List.getLastD_cons, productFrom]

/-- The factorial of a natural number, each product rounded. -/
def factorial (x : Double) : Except CalcError Double :=
  match x.toInt? with
  | some n =>
    if n < 0 then .error .factorialDomain
    else .ok (productFrom (n.toNat - 1) 2 (Double.ofNat 1))
  | none => .error .factorialDomain

def binary (operation : BinaryOperation) (left right : Double) : Except CalcError Double :=
  match operation with
  | .add => .ok (left.add right)
  | .subtract => .ok (left.sub right)
  | .multiply => .ok (left.mul right)
  | .divide => divide left right
  | .power => .ok (power left right)

def unary (mode : AngleMode) (function : UnaryFunction) (x : Double) : Except CalcError Double :=
  match function with
  | .sin => .ok (angle mode x).sin
  | .cos => .ok (angle mode x).cos
  | .tan => .ok (angle mode x).tan
  | .ln => ln x
  | .log => log x
  | .sqrt => sqrt x
  | .exp => .ok (exp x)
  | .factorial => factorial x

def read (text : String) : Except Fault Double :=
  match Double.ofText? text with
  | some x => .ok x
  | none => .error .malformed

def arithmetic : Arithmetic Double where
  read := read
  ofDouble := id
  binary := binary
  unary := unary

end SciCalc.Standard
