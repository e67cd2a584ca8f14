import SciCalc.Formula.Arithmetic
import SciCalc.BigFloat.Decimal

/-! # Precise arithmetic

The operations of a formula at a precision that is given in decimal places. Domains and errors
are those of the arithmetic on doubles.
-/

namespace SciCalc.Precise

/-- An angle in the given mode as an angle in radians. -/
def angle (bits : Nat) (mode : AngleMode) (x : BigFloat) : BigFloat :=
  match mode with
  | .degrees => x.mul bits (BigFloat.degree bits)
  | .radians => x

/-- The power; zero to a negative exponent is infinite. -/
def power (bits : Nat) (base exponent : BigFloat) : BigFloat :=
  if base.isZero && exponent.isNegative then .inf false else base.pow bits exponent

def factorial (bits : Nat) (x : BigFloat) : Except CalcError BigFloat :=
  if !x.isFinite || x.isNegative || !x.isInteger then .error .factorialDomain
  else .ok (x.factorial bits)

def binary (bits : Nat) (operation : BinaryOperation) (left right : BigFloat) :
    Except CalcError BigFloat :=
  match operation with
  | .add => .ok (left.add bits right)
  | .subtract => .ok (left.sub bits right)
  | .multiply => .ok (left.mul bits right)
  | .divide => if right.isZero then .error .divisionByZero else .ok (left.div bits right)
  | .power => .ok (power bits left right)

def unary (bits : Nat) (mode : AngleMode) (function : UnaryFunction) (x : BigFloat) :
    Except CalcError BigFloat :=
  match function with
  | .sin => .ok ((angle bits mode x).sin bits)
  | .cos => .ok ((angle bits mode x).cos bits)
  | .tan => .ok ((angle bits mode x).tan bits)
  | .ln =>
    if x.isZero || x.isNegative then .error (.logarithmDomain .ln) else .ok (x.ln bits)
  | .log =>
    if x.isZero || x.isNegative then .error (.logarithmDomain .log) else .ok (x.log10 bits)
  | .sqrt => if x.isNegative then .error .squareRootDomain else .ok (x.sqrt bits)
  | .exp => .ok (x.exp bits)
  | .factorial => factorial bits x

def read (bits : Nat) (text : String) : Except Fault BigFloat :=
  match BigFloat.ofText? bits text with
  | some x => .ok x
  | none => .error .malformed

/-- The arithmetic at a precision of the given number of decimal places. -/
def arithmetic (places : Nat) : Arithmetic BigFloat :=
  let bits := BigFloat.bitsOfPlaces places
  { read := read bits
    ofDouble := BigFloat.ofDouble
    binary := binary bits
    unary := unary bits }

end SciCalc.Precise
