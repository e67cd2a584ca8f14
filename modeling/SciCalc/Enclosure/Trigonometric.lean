import SciCalc.Enclosure.Constant

/-! # Sine, cosine and tangent

The angle is reduced by multiples of π/2 to one of at most π/4 in magnitude. The multiple is
subtracted with as many more places as the angle has before the point, so the reduction loses
nothing however large the angle is. For an angle so small that the second term of the series
does not count, the first term alone is taken.
-/

namespace SciCalc.Enclosure

/-- Terms of the series of sine or cosine from the given one on, with alternating signs, in
units of `2 ^ -places`. -/
def alternatingSum (places square : Nat) : Nat → Nat → Nat → Int
  | 0, _, _ => 0
  | fuel + 1, term, index =>
    if term = 0 then 0
    else (term : Int) - alternatingSum places square fuel
      (((term * square) >>> places) / (index * (index + 1))) (index + 2)

/-- The sine and the cosine of an angle of at most π/4 in magnitude, in units of
`2 ^ -places`. -/
def smallSineCosine (places : Nat) (angle : Int) : Int × Int :=
  let square := (angle.natAbs * angle.natAbs) >>> places
  let sine := alternatingSum places square (places + 2) angle.natAbs 2
  (if angle < 0 then -sine else sine, alternatingSum places square (places + 2) (1 <<< places) 1)

/-- Turns a sine and a cosine by `quarters` right angles. -/
def turned (quarters : Int) (sine cosine : Int) : Int × Int :=
  if quarters % 4 = 0 then (sine, cosine)
  else if quarters % 4 = 1 then (cosine, -sine)
  else if quarters % 4 = 2 then (-sine, -cosine)
  else (-cosine, sine)

/-- The sine and the cosine of the number `mantissa * 2 ^ exponent` other than zero, with about
`bits` leading bits if the angle is not near a multiple of π/2. -/
def sineCosine (bits : Nat) (mantissa exponent : Int) : Enclosure × Enclosure :=
  let top : Int := Nat.log2 mantissa.natAbs + exponent
  if top < -(bits : Int) then
    (⟨mantissa <<< (bits + 4), (mantissa.natAbs >>> (bits - 4)) + 1, exponent - (bits + 4)⟩,
      ⟨(1 <<< bits : Nat), 1, -bits⟩)
  else
    let places := bits + 8 + (-top).toNat
    let reach := top.toNat + 5
    let angle := ((exactly mantissa exponent).toPlaces (places + reach)).1
    let right := piPlaces (places + reach - 1)
    let quarters := (2 * angle + right) / (2 * right)
    let rest := (angle - quarters * right) >>> reach
    let (sine, cosine) := smallSineCosine places rest
    let (sine, cosine) := turned quarters sine cosine
    let error := 4 * (places + 4) + 8
    (⟨sine, error, -places⟩, ⟨cosine, error, -places⟩)

/-- The sine of `mantissa * 2 ^ exponent`, other than zero. -/
def sin (bits : Nat) (mantissa exponent : Int) : Enclosure :=
  (sineCosine bits mantissa exponent).1

/-- The cosine of `mantissa * 2 ^ exponent`, other than zero. -/
def cos (bits : Nat) (mantissa exponent : Int) : Enclosure :=
  (sineCosine bits mantissa exponent).2

/-- The tangent of `mantissa * 2 ^ exponent`, other than zero, if its cosine is known to be
away from zero. -/
def tan? (bits : Nat) (mantissa exponent : Int) : Option Enclosure :=
  let (sine, cosine) := sineCosine bits mantissa exponent
  div? bits sine cosine

end SciCalc.Enclosure
