import SciCalc.Numeric.Quotient

/-! # Binary floating-point numbers of double precision

A finite double is a sign, a mantissa below `2 ^ 53` and an exponent, kept in the one form in
which the mantissa has its top bit set unless the exponent is the least one. The form is part
of the type, so two doubles are the same number with the same sign of zero exactly when they
are equal as values of the type. There is one value that is not a number.

`Double.ofFraction` is the only rounding: it takes an exact non-negative fraction to the
nearest double, ties to even, with gradual underflow and with infinity beyond the range.
-/

namespace SciCalc

/-- The bound of the mantissas of doubles, `2 ^ 53`. -/
abbrev mantissaBound : Nat := 9007199254740992

/-- The least mantissa of a normal double, `2 ^ 52`. -/
abbrev leastNormalMantissa : Nat := 4503599627370496

/-- The exponent of the last mantissa bit of subnormal doubles. -/
abbrev leastExponent : Int := -1074

/-- The exponent of the last mantissa bit of the largest doubles. -/
abbrev greatestExponent : Int := 971

/-- The one form in which a finite double is kept. -/
abbrev IsCanonical (mantissa : Nat) (exponent : Int) : Prop :=
  mantissa < mantissaBound ∧ leastExponent ≤ exponent ∧ exponent ≤ greatestExponent ∧
    (leastNormalMantissa ≤ mantissa ∨ exponent = leastExponent)

/-- A double: not a number, an infinity of either sign, or a finite number of either sign,
zeros included. -/
inductive Double where
  | nan
  | inf (negative : Bool)
  | finite (negative : Bool) (mantissa : Nat) (exponent : Int)
      (canonical : IsCanonical mantissa exponent)
  deriving DecidableEq

namespace Double

def zero (negative : Bool) : Double :=
  .finite negative 0 leastExponent (by decide)

instance : Inhabited Double := ⟨zero false⟩

/-- The double with the given sign, mantissa and exponent. A mantissa that has just reached
`2 ^ 53` is written with the next exponent; what lies beyond the greatest exponent is
infinite. -/
def ofMantissa (negative : Bool) (mantissa : Nat) (exponent : Int) : Double :=
  if canonical : IsCanonical mantissa exponent then
    .finite negative mantissa exponent canonical
  else if carried : mantissa = mantissaBound ∧ leastExponent ≤ exponent + 1 ∧
      exponent + 1 ≤ greatestExponent then
    .finite negative leastNormalMantissa (exponent + 1)
      ⟨by decide, carried.2.1, carried.2.2, Or.inl (Nat.le_refl _)⟩
  else .inf negative

/-- The exponent of the last mantissa bit of the doubles nearest to a positive fraction. -/
def lastPlace (num den : Nat) : Int :=
  max (binade num den - 52) leastExponent

/-- The double nearest to `num / den`, with the given sign; ties go to the even mantissa. -/
def ofFraction (negative : Bool) (num den : Nat) : Double :=
  if num = 0 then zero negative
  else
    let place := lastPlace num den
    let (scaledNum, scaledDen) := scaleTwo num den (-place)
    ofMantissa negative (roundDiv scaledNum scaledDen) place

/-- The double nearest to a rational number. A rational zero becomes the zero with the sign
that the caller wants. -/
def ofRat (negativeZero : Bool) (q : Rat) : Double :=
  if q.num = 0 then zero negativeZero else ofFraction (q.num < 0) q.num.natAbs q.den

def ofInt (n : Int) : Double :=
  ofFraction (n < 0) n.natAbs 1

def ofNat (n : Nat) : Double :=
  ofFraction false n 1

/-- The double nearest to `mantissa * 2 ^ exponent`. Where the number certainly lies beyond
the range, or below half of the least positive double, no power of two is computed. -/
def ofScaled (mantissa : Int) (exponent : Int) : Double :=
  let negative : Bool := mantissa < 0
  let top : Int := Nat.log2 mantissa.natAbs + exponent
  if mantissa = 0 then zero false
  else if 1024 ≤ top then .inf negative
  else if top < -1080 then zero negative
  else
    let (num, den) := scaleTwo mantissa.natAbs 1 exponent
    ofFraction negative num den

/-- The rational value of a finite double, and zero for the others. -/
def toRat : Double → Rat
  | finite negative mantissa exponent _ =>
    let (num, den) := scaleTwo mantissa 1 exponent
    mkRat (if negative then -(num : Int) else num) den
  | _ => 0

/-- Whether the sign is negative; the value that is not a number has none. -/
def isNegative : Double → Bool
  | nan => false
  | inf negative => negative
  | finite negative _ _ _ => negative

def isFinite : Double → Bool
  | finite _ _ _ _ => true
  | _ => false

def isNan : Double → Bool
  | nan => true
  | _ => false

def isInfinite : Double → Bool
  | inf _ => true
  | _ => false

/-- Whether the double is a zero of either sign. -/
def isZero : Double → Bool
  | finite _ 0 _ _ => true
  | _ => false

/-- The order of two doubles by value: zeros of either sign are equal, and what is not a
number has no order. -/
def order? : Double → Double → Option Ordering
  | nan, _ | _, nan => none
  | inf left, inf right =>
    some (if left = right then .eq else if left then .lt else .gt)
  | inf left, finite _ _ _ _ => some (if left then .lt else .gt)
  | finite _ _ _ _, inf right => some (if right then .gt else .lt)
  | left@(finite _ _ _ _), right@(finite _ _ _ _) =>
    some (compareOfLessAndEq left.toRat right.toRat)

def sameValue (left right : Double) : Bool := left.order? right == some .eq

/-- Whether the first double is less than the second by value. -/
def isLess (left right : Double) : Bool := left.order? right == some .lt

/-- Whether the first double is at most the second by value. -/
def isAtMost (left right : Double) : Bool :=
  left.order? right == some .lt || left.order? right == some .eq

def neg : Double → Double
  | nan => nan
  | inf negative => inf (!negative)
  | finite negative mantissa exponent canonical =>
    finite (!negative) mantissa exponent canonical

def abs : Double → Double
  | nan => nan
  | inf _ => inf false
  | finite _ mantissa exponent canonical => finite false mantissa exponent canonical

/-- The magnitude of a finite double as a fraction; other doubles count as zero. -/
def magnitude : Double → Nat × Nat
  | finite _ mantissa exponent _ => scaleTwo mantissa 1 exponent
  | _ => (0, 1)

/-- The integer that a double is equal to, if there is one. -/
def toInt? : Double → Option Int
  | x@(finite _ _ _ _) => if x.toRat.den = 1 then some x.toRat.num else none
  | _ => none

def isInteger (x : Double) : Bool := x.toInt?.isSome

def isOddInteger (x : Double) : Bool :=
  match x.toInt? with
  | some n => n % 2 == 1
  | none => false

end Double

end SciCalc
