import SciCalc.BigFloat.Decimal

/-! # The display of precise results

Integers below `10 ^ 18` are shown in full, all other numbers with the working digits, and from
twelve decimal places up or down with a power of ten. Whether a number is an integer and how
large it is, is decided with 53 bits; the digits are those of the full value.
-/

namespace SciCalc.Precise

/-- The bits with which a result is looked at before it is shown. -/
def inspectionBits : Nat := 53

/-- From this decimal exponent on, up or down, numbers are shown with a power of ten. -/
def scientificLimit : Nat := 12

/-- Integers below this are shown in full. -/
def wholeLimit : BigFloat := BigFloat.ofInt 1000000000000000000

/-- The display text of a result with the given number of digits. -/
def format (x : BigFloat) (digits : Nat) : String :=
  match x with
  | .nan => "Error"
  | .inf negative => if negative then "-Infinity" else "Infinity"
  | .finite mantissa exponent =>
    let seen := x.abs.round inspectionBits
    if mantissa = 0 then "0"
    else if x.floorRounded inspectionBits = x && seen.isSmaller wholeLimit then toString x.floor
    else
      let decade := (seen.log10 inspectionBits).floorRounded inspectionBits |>.floor
      let range :=
        if scientificLimit ≤ decade.natAbs then BigFloat.FixedRange.none
        else BigFloat.FixedRange.ofDigits digits
      BigFloat.significantText digits range mantissa exponent

end SciCalc.Precise
