import SciCalc.Double.Basic

/-! # Limits and defaults

The figures that the calculator is built with.
-/

namespace SciCalc.Settings

/-- How deep parentheses may be nested. -/
abbrev greatestDepth : Nat := 10

/-- How many significant digits are displayed. -/
abbrev displayDigits : Nat := 10

/-- From here on numbers are displayed with a power of ten, `1e10`. -/
def largeThreshold : Double := Double.ofInt 10000000000

/-- Below this numbers are displayed with a power of ten, `1e-7`. -/
def smallThreshold : Double := Double.ofFraction false 1 10000000

/-- Below this the shortest text has an exponent and the display uses one too, `1e-6`. -/
def exponentThreshold : Double := Double.ofFraction false 1 1000000

/-- How many digits the precise calculator starts with. -/
abbrev initialDigits : Int := 30

/-- How many digits the precise calculator adds on request. -/
abbrev digitStep : Int := 30

/-- Whether the precise calculator is used unless the user says so. -/
abbrev preciseByDefault : Bool := false

end SciCalc.Settings
