/-! # Exact quotients of natural numbers

A non-negative rational is handled here as a numerator and a positive denominator. The
functions find the power of two or of ten that its leading digit stands for, scale it by such
a power without loss, and round it to the nearest natural number with ties to even. They are
the only places where a number is rounded: every other module says at which digit to round.
-/

namespace SciCalc

@[reducible] def tenPow (exponent : Nat) : Nat := Nat.pow 10 exponent

/-- The natural number nearest to `num / den`. A quotient halfway between two natural numbers
goes to the even one. -/
def roundDiv (num den : Nat) : Nat :=
  let quotient := num / den
  let remainder := num % den
  if 2 * remainder < den then quotient
  else if den < 2 * remainder then quotient + 1
  else quotient + quotient % 2

/-- The fraction `num / den` times `2 ^ shift`, as a numerator and a denominator. -/
def scaleTwo (num den : Nat) (shift : Int) : Nat × Nat :=
  if 0 ≤ shift then (num <<< shift.toNat, den) else (num, den <<< (-shift).toNat)

/-- The fraction `num / den` times `10 ^ shift`, as a numerator and a denominator. -/
def scaleTen (num den : Nat) (shift : Int) : Nat × Nat :=
  if 0 ≤ shift then (num * tenPow shift.toNat, den) else (num, den * tenPow (-shift).toNat)

/-- The exponent of the largest power of two that is at most `num / den`, for a positive
fraction. The difference of the bit lengths is that exponent or one more. -/
def binade (num den : Nat) : Int :=
  let estimate : Int := (Nat.log2 num : Int) - Nat.log2 den
  let (num, den) := scaleTwo num den (-estimate)
  if den ≤ num then estimate else estimate - 1

/-- How many decimal digits a natural number is written with; zero has one. -/
def decimalLength (n : Nat) : Nat := (Nat.toDigits 10 n).length

/-- The exponent of the largest power of ten that is at most `num / den`, for a positive
fraction. The difference of the digit counts is that exponent or one more. -/
def decade (num den : Nat) : Int :=
  let estimate : Int := (decimalLength num : Int) - decimalLength den
  let (num, den) := scaleTen num den (-estimate)
  if den ≤ num then estimate else estimate - 1

/-- Takes the factor two out of a positive natural number as often as it goes, at most `fuel`
times, and counts it in the exponent. -/
def oddPart : Nat → Nat → Int → Nat × Int
  | 0, mantissa, exponent => (mantissa, exponent)
  | fuel + 1, mantissa, exponent =>
    if mantissa % 2 = 0 then oddPart fuel (mantissa / 2) (exponent + 1) else (mantissa, exponent)

end SciCalc
