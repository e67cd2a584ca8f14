import SciCalc.Enclosure.Basic

/-! # The numbers π and ln 2

Both are sums of inverse tangents, ordinary or hyperbolic, of reciprocals of integers, and each
of these is a power series with integer divisions only. The sums are computed with a few more
places than wanted, which absorb the divisions' errors.
-/

namespace SciCalc.Enclosure

/-- The sum of `power / odd`, `power / square / (odd + 2)` and so on, with alternating signs. -/
def alternatingOddSum (square : Nat) : Nat → Nat → Nat → Int
  | 0, _, _ => 0
  | fuel + 1, power, odd =>
    if power = 0 then 0
    else ((power / odd : Nat) : Int) - alternatingOddSum square fuel (power / square) (odd + 2)

/-- The sum of `power / odd`, `power / square / (odd + 2)` and so on. -/
def oddSum (square : Nat) : Nat → Nat → Nat → Int
  | 0, _, _ => 0
  | fuel + 1, power, odd =>
    if power = 0 then 0
    else ((power / odd : Nat) : Int) + oddSum square fuel (power / square) (odd + 2)

/-- The inverse tangent of `1 / n` in units of `2 ^ -places`. -/
def arctanReciprocal (n places : Nat) : Int :=
  alternatingOddSum (n * n) (places + 2) ((1 <<< places) / n) 1

/-- The inverse hyperbolic tangent of `1 / n` in units of `2 ^ -places`. -/
def artanhReciprocal (n places : Nat) : Int :=
  oddSum (n * n) (places + 2) ((1 <<< places) / n) 1

/-- Extra places for sums of about `places` terms. -/
def guardPlaces (places : Nat) : Nat := Nat.log2 (places + 1) + 12

/-- The number π in units of `2 ^ -places`, within one unit: sixteen times the inverse tangent
of 1/5 less four times that of 1/239. -/
def piPlaces (places : Nat) : Int :=
  let working := places + guardPlaces places
  (16 * arctanReciprocal 5 working - 4 * arctanReciprocal 239 working) >>> guardPlaces places

/-- The natural logarithm of two in units of `2 ^ -places`, within one unit. -/
def lnTwoPlaces (places : Nat) : Int :=
  let working := places + guardPlaces places
  (18 * artanhReciprocal 26 working - 2 * artanhReciprocal 4801 working +
    8 * artanhReciprocal 8749 working) >>> guardPlaces places

end SciCalc.Enclosure
