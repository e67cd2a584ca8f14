import SciCalc.Datum
import SciCalc.Double.Elementary
import SciCalc.Failure

/-! # Rounding to significant digits

A number is rounded to some significant digits and read as a double again; then it is scaled to
an integer, rounded, and scaled back. The second rounding removes what the binary form of the
first one leaves. If the last digit stands left of the point, the result is an integer.
-/

namespace SciCalc.Display

/-- The largest number of significant digits that a double can have. -/
def mostDigits : Nat := 767

/-- The double nearest to a finite double rounded to `count` significant digits. -/
def nearestDecimal (count : Nat) (x : Double) : Double :=
  if x.isFinite then (Decimal.ofDouble (max 1 (min count mostDigits)) x).toDouble else x

/-- A power of ten as a double; beyond the range there is none. -/
def powerOfTen (exponent : Nat) : Except Fault Double :=
  if 308 < exponent then .error .outOfRange else .ok (Double.ofNat (tenPow exponent))

/-- The integer nearest to a double, which must be finite. -/
def nearestInteger (x : Double) : Except Fault Int :=
  if x.isNan then .error .malformed
  else if x.isInfinite then .error .outOfRange
  else .ok x.round

/-- The exponent of the power of ten that a double's decimal logarithm names. -/
def magnitude (x : Double) : Except Fault Int :=
  let logarithm := x.abs.log10
  if logarithm.isNan then .error .malformed
  else if logarithm.isInfinite then .error .outOfRange
  else .ok logarithm.floor

/-- Rounds a double to significant digits, the first of which stands for the power of ten with the
given exponent. -/
def roundAt (exponent : Int) (x : Double) (digits : Nat) : Except Fault Number := do
  let nearest := nearestDecimal digits x
  let place := (digits : Int) - exponent - 1
  if 0 ≤ place then
    let scaled ← nearestInteger (nearest.mul (← powerOfTen place.toNat))
    return .float (Double.ofFraction (scaled < 0) scaled.natAbs (tenPow place.toNat))
  else
    let scaled ← nearestInteger (nearest.div (← powerOfTen (-place).toNat))
    return .int (scaled * tenPow (-place).toNat)

/-- Rounds a double other than zero to significant digits, the first of which stands where its
logarithm says. -/
def roundDouble (x : Double) (digits : Nat) : Except Fault Number := do
  roundAt (← magnitude x) x digits

/-- Rounds a number to significant digits, of which there cannot be a negative number. -/
def roundToPrecision (number : Number) (digits : Int) : Except Fault Number :=
  match number.toDouble? with
  | some x =>
    if x.isZero then .ok (.float (Double.zero false))
    else if digits < 0 || 2147483647 < digits then .error .malformed
    else roundDouble x digits.toNat
  | none => .error (if digits < 0 || 2147483647 < digits then .malformed else .outOfRange)

end SciCalc.Display
