import SciCalc.Enclosure.Constant
import SciCalc.Numeric.SquareRoot

/-! # Exponential function, logarithm and powers

The exponential is reduced by multiples of ln 2 to an argument between zero and ln 2; the
logarithm splits off the power of two that leaves a factor between 1/√2 and √2. A power whose
value is a binary fraction with few bits is found exactly, since no enclosure would ever tell
it from its neighbours; any other power goes through logarithm and exponential.
-/

namespace SciCalc.Enclosure

/-- The terms of the exponential series from the given one on, in units of `2 ^ -places`. -/
def exponentialSum (places argument : Nat) : Nat → Nat → Nat → Nat
  | 0, _, _ => 0
  | fuel + 1, term, index =>
    if term = 0 then 0
    else
      term +
        exponentialSum places argument fuel ((term * argument) >>> places / index) (index + 1)

/-- The exponential of an enclosed number, with about `bits` leading bits if the enclosure of
the argument allows it. -/
def exp (bits : Nat) (x : Enclosure) : Enclosure :=
  if x.middle.natAbs + x.error = 0 then exactly 1 0
  else if x.top < -(bits + 4 : Int) then ⟨(1 <<< bits : Nat), 1, -bits⟩
  else
    let reach := (x.top + 1).toNat
    let places := bits + 8
    let (argument, error) := x.toPlaces (places + reach)
    let unit := lnTwoPlaces (places + reach)
    let count := argument / unit
    let rest := (argument - count * unit) >>> reach
    let restError := ((error + count.natAbs) >>> reach) + 2
    ⟨exponentialSum places rest.toNat (places + 2) (1 <<< places) 1,
      4 * (places + 3) + 4 * restError, count - places⟩

/-- The terms of the series of the inverse hyperbolic tangent from the given power on, in units
of `2 ^ -places`. -/
def artanhSum (places square : Nat) : Nat → Nat → Nat → Nat
  | 0, _, _ => 0
  | fuel + 1, power, odd =>
    if power = 0 then 0
    else power / odd + artanhSum places square fuel ((power * square) >>> places) (odd + 2)

/-- The natural logarithm of the positive number `mantissa * 2 ^ exponent`, with about `bits`
leading bits. It is a multiple of ln 2 plus twice an inverse hyperbolic tangent. -/
def ln (bits mantissa : Nat) (exponent : Int) : Enclosure :=
  let width := Nat.log2 mantissa
  let width := if 1 <<< (2 * width + 1) < mantissa * mantissa then width + 1 else width
  let count := exponent + width
  let num : Int := (mantissa : Int) - (1 <<< width : Nat)
  let den := mantissa + 1 <<< width
  if count = 0 && num = 0 then exactly 0 0
  else
    let loss := if count = 0 then Nat.log2 den - Nat.log2 num.natAbs else 0
    let places := bits + 8 + loss
    let argument := (num.natAbs <<< places) / den
    let series : Int :=
      2 * artanhSum places ((argument * argument) >>> places) (places + 2) argument 1
    let reach := Nat.log2 count.natAbs + 2
    let multiple := (count * lnTwoPlaces (places + reach)) >>> reach
    ⟨(if num < 0 then -series else series) + multiple, 8 * (places + 4), -places⟩

/-- The decimal logarithm of the positive number `mantissa * 2 ^ exponent`. -/
def log10? (bits mantissa : Nat) (exponent : Int) : Option Enclosure :=
  let logarithm := ln (bits + 8) mantissa exponent
  if logarithm.error = 0 then some logarithm else div? bits logarithm (ln (bits + 8) 10 0)

/-- Replaces `mantissa * 2 ^ exponent`, with an odd mantissa, by its square root `times` times,
if all these roots are numbers of the same form. The number of roots that can exist is bounded
by the bits of the mantissa and of the exponent. -/
def repeatedRoot? : Nat → Nat → Nat → Int → Option (Nat × Int)
  | 0, times, mantissa, exponent => if times = 0 then some (mantissa, exponent) else none
  | fuel + 1, times, mantissa, exponent =>
    if times = 0 then some (mantissa, exponent)
    else
      let root := squareRoot mantissa
      if root * root = mantissa && exponent % 2 = 0 then
        repeatedRoot? fuel (times - 1) root (exponent / 2)
      else none

/-- The power of `mantissa * 2 ^ exponent` to `power * 2 ^ powerExponent`, if it is a binary
fraction whose mantissa has few enough bits to matter for results of `bits` bits. A power of
two has such powers to all exponents for which it has the roots, any other number only to
positive exponents. -/
def exactPower? (bits mantissa : Nat) (exponent power powerExponent : Int) :
    Option (Nat × Int) :=
  let (odd, place) := oddPart (Nat.log2 power.natAbs) power.natAbs powerExponent
  let (base, baseExponent) := oddPart (Nat.log2 mantissa) mantissa exponent
  let roots := Nat.log2 base + Nat.log2 baseExponent.natAbs + 2
  (repeatedRoot? roots (-place).toNat base baseExponent).bind fun (root, rootExponent) =>
    let times := odd <<< place.toNat
    if root = 1 then some (1, rootExponent * (if power < 0 then -(times : Int) else times))
    else if power < 0 || 2 * bits + 64 < times * (Nat.log2 root + 1) then none
    else some (Nat.pow root times, rootExponent * times)

/-- The power of the positive number `mantissa * 2 ^ exponent` to `power * 2 ^ powerExponent`,
with about `bits` leading bits. -/
def pow (bits mantissa : Nat) (exponent power powerExponent : Int) : Enclosure :=
  let size := Nat.log2 power.natAbs + powerExponent +
    Nat.log2 (Nat.log2 mantissa + exponent).natAbs + 4
  exp bits ((ln (bits + 8 + size.toNat) mantissa exponent).scale power powerExponent)

end SciCalc.Enclosure
