/-! # Square roots of natural numbers

The root is found by Newton's iteration from above. A root that is to be rounded is computed
with more bits than wanted, and one further bit tells whether it is exact.
-/

namespace SciCalc

/-- One pass of Newton's iteration for the square root of `n`, repeated until the guess no
longer falls. -/
def squareRootFrom (n : Nat) : Nat → Nat → Nat
  | 0, guess => guess
  | fuel + 1, guess =>
    let next := (guess + n / guess) / 2
    if next < guess then squareRootFrom n fuel next else guess

/-- The largest natural number whose square is at most `n`. The first guess is a power of two
above the root, so the guesses fall to the root and stop there. -/
def squareRoot (n : Nat) : Nat :=
  if n = 0 then 0
  else squareRootFrom n (Nat.log2 n + 2) (1 <<< (Nat.log2 n / 2 + 1))

/-- The square root of `mantissa * 2 ^ exponent` with at least `bits` leading bits right, as a
mantissa and an exponent. The last bit of the mantissa says whether anything was cut off, so
that rounding the pair to fewer than `bits` bits rounds the root itself. -/
def scaledRoot (bits : Nat) (mantissa : Nat) (exponent : Int) : Nat × Int :=
  let parity := (exponent % 2).toNat
  let shift := 2 * bits + parity
  let radicand := mantissa <<< shift
  let root := squareRoot radicand
  let rest := if root * root = radicand then 0 else 1
  (2 * root + rest, (exponent - shift) / 2 - 1)

end SciCalc
