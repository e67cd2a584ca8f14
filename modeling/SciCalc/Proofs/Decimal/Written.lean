import SciCalc.Proofs.Decimal.Spelled

/-! # Numbers as they are written

A number is written with digits, a point and further digits if there are any, and a power of ten
if there is one. It is a number spelled out, and read as the decimal that it spells out.
-/

namespace SciCalc

/-- A power of ten as it is written: its sign, and at least one digit. -/
structure WrittenPower where
  negative : Bool
  digits : List Char
  digits_ne_nil : digits ≠ []
  isDigit_of_mem : ∀ c ∈ digits, c.isDigit = true

/-- A number without its sign as it is written: the digits before the point, of which there is at
least one, the digits after it, and the power of ten. -/
structure Written where
  whole : List Char
  fraction : List Char
  power : Option WrittenPower
  whole_ne_nil : whole ≠ []
  isDigit_of_mem_whole : ∀ c ∈ whole, c.isDigit = true
  isDigit_of_mem_fraction : ∀ c ∈ fraction, c.isDigit = true

namespace WrittenPower

variable (power : WrittenPower)

def signChar : Char := if power.negative then '-' else '+'

def chars : List Char := 'e' :: power.signChar :: power.digits

def value : Int :=
  if power.negative then -(Numeral.digitsValue power.digits : Int)
  else Numeral.digitsValue power.digits

/-- The power of ten as it is spelled. -/
def spelled : SpelledPower where
  mark := 'e'
  sign := [power.signChar]
  digits := power.digits
  mark_eq := .inl rfl
  sign_eq := by unfold signChar; split <;> simp
  digits_ne_nil := power.digits_ne_nil
  isDigit_of_mem := power.isDigit_of_mem

theorem value_spelled : power.spelled.value = power.value := by
  obtain ⟨negative, digits, _, _⟩ := power
  cases negative <;> rfl

end WrittenPower

namespace Written

variable (written : Written)

def pointChars : List Char := if written.fraction.isEmpty then [] else '.' :: written.fraction

def powerChars : List Char :=
  match written.power with
  | none => []
  | some power => power.chars

/-- The text of the number. -/
def chars : List Char := written.whole ++ (written.pointChars ++ written.powerChars)

def powerValue : Int :=
  match written.power with
  | none => 0
  | some power => power.value

/-- The decimal that the text spells out. -/
def decimal (negative : Bool) : Decimal :=
  ⟨negative, Numeral.digitsValue (written.whole ++ written.fraction),
    written.powerValue - written.fraction.length⟩

/-- The number as it is spelled. -/
def spelled : Spelled where
  whole := written.whole
  fraction := if written.fraction.isEmpty then none else some written.fraction
  power := written.power.map WrittenPower.spelled
  isDigit_of_mem_whole := written.isDigit_of_mem_whole
  isDigit_of_mem_fraction := by
    intro digits hdigits
    split at hdigits
    · simp at hdigits
    · obtain rfl := Option.some.inj hdigits
      exact written.isDigit_of_mem_fraction
  hasDigit := .inl written.whole_ne_nil

theorem chars_spelled : written.spelled.chars = written.chars := by
  obtain ⟨whole, fraction, power, _, _, _⟩ := written
  cases fraction <;> cases power <;> rfl

theorem decimal_spelled (negative : Bool) :
    written.spelled.decimal negative = written.decimal negative := by
  obtain ⟨whole, fraction, power, _, _, _⟩ := written
  cases fraction <;> cases power <;>
    simp [Spelled.decimal, Spelled.powerValue, spelled, decimal, powerValue,
      WrittenPower.value_spelled]

theorem mem_numericChars_of_signed (negative : Bool) :
    ∀ c ∈ (if negative then ['-'] else []) ++ written.chars, c ∈ 'E' :: numericChars := by
  rw [← chars_spelled]
  exact written.spelled.mem_numericChars_of_signed negative

/-- The text begins with a digit. -/
theorem exists_chars_eq_cons : ∃ first rest, first.isDigit = true ∧ written.chars = first :: rest := by
  obtain ⟨first, rest, hwhole⟩ := List.exists_cons_of_ne_nil written.whole_ne_nil
  refine ⟨first, rest ++ (written.pointChars ++ written.powerChars),
    written.isDigit_of_mem_whole first (by simp [hwhole]), ?_⟩
  rw [chars, hwhole, List.cons_append]

end Written

/-- A written number with its sign is read as the decimal that it spells out. -/
theorem Numeral.ofText?_written (written : Written) (negative : Bool) :
    ofText? (String.ofList ((if negative then ['-'] else []) ++ written.chars)) =
      some (.decimal (written.decimal negative)) := by
  rw [← written.chars_spelled, written.spelled.ofText?_eq, written.decimal_spelled]

end SciCalc
