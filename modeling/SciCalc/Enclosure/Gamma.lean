import SciCalc.Enclosure.Exponential

/-! # The logarithm of the gamma function

For large arguments the logarithm is given by an asymptotic series. Its coefficients are made
of the zigzag numbers, which a triangle of partial sums produces; its error is below the first
term left out, and the terms are summed until one vanishes at the places wanted.
-/

namespace SciCalc.Enclosure

/-- The partial sums of a list, each put after the given start. -/
def partialSums (start : Nat) : List Nat → List Nat
  | [] => [start]
  | first :: rest => start :: partialSums (start + first) rest

/-- The next row of the triangle: the partial sums of the row read backwards. Its last number
is the next zigzag number. -/
def nextRow (row : List Nat) : List Nat := partialSums 0 row.reverse

/-- The terms of the asymptotic series from the given one on, with alternating signs, in units
of `2 ^ -places`. The row ends with the zigzag number of index `2 * index - 1`, and `power` is
the argument to that index. -/
def stirlingSum (places argument : Nat) : Nat → Nat → Nat → List Nat → Int
  | 0, _, _, _ => 0
  | fuel + 1, index, power, row =>
    let fours := Nat.pow 4 index
    let term := (row.getLastD 0 <<< places) / ((2 * index - 1) * fours * (fours - 1) * power)
    if term = 0 then 0
    else (term : Int) - stirlingSum places argument fuel (index + 1)
      (power * argument * argument) (nextRow (nextRow row))

/-- Half of the logarithm of the circumference of the unit circle, in units of `2 ^ -places`
and with its error. -/
def halfLnTwoPi (places : Nat) : Int × Nat :=
  let working := places + 8
  let lnPi := (ln working (piPlaces working).toNat (-(working : Int))).toPlaces places
  ((lnPi.1 + lnTwoPlaces places) / 2, lnPi.2 + 4)

/-- The logarithm of the gamma function of a natural number in the thousands or above. -/
def lnGamma (bits argument : Nat) : Enclosure :=
  let places := bits + 16
  let logarithm := ln (places + 2 * Nat.log2 argument + 8) argument 0
  let (product, productError) := (logarithm.scale (2 * argument - 1) (-1)).toPlaces places
  let (constant, constantError) := halfLnTwoPi places
  let series := stirlingSum places argument places 1 argument [0, 1]
  ⟨product - (argument <<< places : Nat) + constant + series,
    productError + constantError + places + 8, -places⟩

end SciCalc.Enclosure
