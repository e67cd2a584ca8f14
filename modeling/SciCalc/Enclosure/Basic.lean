import SciCalc.Numeric.Quotient

/-! # Enclosures of real numbers

An elementary function has no exact value to compute with. Instead a real number is enclosed:
it lies within `error * 2 ^ exponent` of `middle * 2 ^ exponent`. If both ends of an enclosure
round to the same number, the real number does too, because rounding is monotone. If they do
not, the enclosure is computed again with twice as many extra bits.
-/

namespace SciCalc

/-- The real numbers within `error * 2 ^ exponent` of `middle * 2 ^ exponent`. -/
structure Enclosure where
  middle : Int
  error : Nat
  exponent : Int

namespace Enclosure

/-- The enclosure of `mantissa * 2 ^ exponent` alone. -/
def exactly (mantissa exponent : Int) : Enclosure := ⟨mantissa, 0, exponent⟩

def neg (x : Enclosure) : Enclosure := { x with middle := -x.middle }

/-- The enclosure times the exact number `mantissa * 2 ^ exponent`. -/
def scale (x : Enclosure) (mantissa exponent : Int) : Enclosure :=
  ⟨x.middle * mantissa, x.error * mantissa.natAbs, x.exponent + exponent⟩

/-- The enclosure in units of `2 ^ -places`: a middle and an error. -/
def toPlaces (x : Enclosure) (places : Nat) : Int × Nat :=
  let shift := x.exponent + places
  if 0 ≤ shift then (x.middle <<< shift.toNat, x.error <<< shift.toNat)
  else (x.middle >>> (-shift).toNat, (x.error >>> (-shift).toNat) + 2)

/-- A bound of the enclosed numbers: their magnitude is below two to this power. -/
def top (x : Enclosure) : Int := Nat.log2 (x.middle.natAbs + x.error) + 1 + x.exponent

/-- The quotient with about `bits` leading bits, unless the divisor may be near zero. The
quotient of the middles is off by at most the sum of the dividend's error and of the
quotient times the divisor's error, over the least divisor. -/
def div? (bits : Nat) (x y : Enclosure) : Option Enclosure :=
  if y.middle.natAbs ≤ 2 * y.error then none
  else
    let shift := bits + 2 + Nat.log2 y.middle.natAbs - Nat.log2 x.middle.natAbs
    let quotient := (x.middle <<< shift) / y.middle
    let error := ((x.error <<< shift) + (quotient.natAbs + 1) * y.error) /
      (y.middle.natAbs - y.error) + 2
    some ⟨quotient, error, x.exponent - y.exponent - shift⟩

/-- What both ends of the enclosure round to, if that is the same. -/
def settle? {α : Type} [DecidableEq α] (round : Int → Int → α) (x : Enclosure) : Option α :=
  let low := round (x.middle - x.error) x.exponent
  let high := round (x.middle + x.error) x.exponent
  if low = high then some low else none

/-- Rounds a real number that can be enclosed with any number of bits: tries `bits` and
`extra` more, then twice as many more, and so on. The last enclosure decides by its middle, and
the fallback is for a number that has none. -/
def settleFrom {α : Type} [DecidableEq α] (enclose : Nat → Option Enclosure)
    (round : Int → Int → α) (fallback : α) (bits : Nat) : Nat → Nat → α
  | 0, extra =>
    match enclose (bits + extra) with
    | some last => round last.middle last.exponent
    | none => fallback
  | fuel + 1, extra =>
    match (enclose (bits + extra)).bind (settle? round) with
    | some result => result
    | none => settleFrom enclose round fallback bits fuel (2 * extra)

/-- Rounds a real number that can be enclosed with any number of bits, to numbers of about
`bits` bits. The middle of the last enclosure decides when the number is within about
`2 ^ -300000` of a boundary between two results. -/
def settle {α : Type} [DecidableEq α] (enclose : Nat → Option Enclosure)
    (round : Int → Int → α) (fallback : α) (bits : Nat) : α :=
  settleFrom enclose round fallback bits 14 40

end Enclosure

end SciCalc
