import SciCalc.Precise.Arithmetic
import SciCalc.Proofs.BigFloat.WholeNumbers
import SciCalc.Proofs.Decimal.Spelled
import SciCalc.Proofs.Decimal.WholeNumbers
import SciCalc.Proofs.Formula.Tree
import SciCalc.Standard.Arithmetic

/-! # Formulas of whole numbers

A formula that adds, subtracts and multiplies numbers without a fraction denotes an integer. An
arithmetic computes with whole numbers if it reads them and applies the three operations as integers
do, as long as nothing leaves the bound of the mantissas. Then it gives every such formula the
integer that it denotes. Both the arithmetic on doubles and the precise one do.
-/

namespace SciCalc

/-! ## Whole numerals -/

/-- A number without a fraction as it is written: at least one digit, with a minus or without. -/
structure WholeNumeral where
  negative : Bool
  digits : List Char
  digits_ne_nil : digits ≠ []
  isDigit_of_mem : ∀ c ∈ digits, c.isDigit = true

namespace WholeNumeral

variable (numeral : WholeNumeral)

def chars : List Char := (if numeral.negative then ['-'] else []) ++ numeral.digits

def text : String := String.ofList numeral.chars

/-- The number that the digits denote. -/
def size : Nat := Numeral.digitsValue numeral.digits

def value : Int := if numeral.negative then -(numeral.size : Int) else numeral.size

@[simp] theorem natAbs_value : numeral.value.natAbs = numeral.size := by
  unfold value
  split <;> simp

/-- The digits as a number spelled out. -/
def spelled : Spelled where
  whole := numeral.digits
  fraction := none
  power := none
  isDigit_of_mem_whole := numeral.isDigit_of_mem
  isDigit_of_mem_fraction := nofun
  hasDigit := .inl numeral.digits_ne_nil

/-- A whole numeral is read as the decimal that it is. -/
theorem ofText?_text :
    Numeral.ofText? numeral.text = some (.decimal ⟨numeral.negative, numeral.size, 0⟩) := by
  have hread := numeral.spelled.ofText?_eq numeral.negative
  simpa [Spelled.chars, Spelled.pointChars, Spelled.powerChars, Spelled.decimal,
    Spelled.powerValue, spelled, text, chars, size] using hread

/-- The decimal digits of an integer, with a minus if it is negative. -/
def ofInt (n : Int) : WholeNumeral where
  negative := n < 0
  digits := Nat.toDigits 10 n.natAbs
  digits_ne_nil := Nat.toDigits_ne_nil
  isDigit_of_mem _ hmem := Nat.isDigit_of_mem_toDigits (by decide) (by decide) hmem

theorem value_ofInt (n : Int) : (ofInt n).value = n := by
  have hsize : (ofInt n).size = n.natAbs := Nat.ofDigitChars_ten_toDigits
  rw [value, hsize]
  exact Double.signed_size n

theorem text_ofInt (n : Int) : (ofInt n).text = toString n := by
  rw [← String.toList_inj, text, String.toList_ofList, toList_toString_int]
  simp only [chars, ofInt, decide_eq_true_eq]

end WholeNumeral

/-! ## Whole formulas -/

/-- What an operation does to integers, if it leaves no fraction. -/
def BinaryOperation.onIntegers? : BinaryOperation → Option (Int → Int → Int)
  | add => some (· + ·)
  | subtract => some (· - ·)
  | multiply => some (· * ·)
  | divide | power => none

namespace Formula

/-- A tree of whole numerals under the three operations denotes an integer. No number in it is
larger than the bound of the mantissas. -/
inductive Tree.DenotesInteger : Tree Literal → Int → Prop where
  | leaf {literal : Literal} (numeral : WholeNumeral) (htext : literal.text = some numeral.text)
      (hbound : numeral.value.natAbs ≤ mantissaBound) :
      DenotesInteger (.leaf literal) numeral.value
  | binary {sign : OperatorSign} {combine : Int → Int → Int} {left right : Tree Literal}
      {m n : Int} (hcombine : sign.operation.onIntegers? = some combine)
      (hleft : DenotesInteger left m) (hright : DenotesInteger right n)
      (hbound : (combine m n).natAbs ≤ mantissaBound) :
      DenotesInteger (.binary sign left right) (combine m n)

/-- An integer written in its decimal digits denotes itself. -/
theorem Tree.denotesInteger_leaf {literal : Literal} {n : Int}
    (htext : literal.text = some (toString n)) (hbound : n.natAbs ≤ mantissaBound) :
    (Tree.leaf literal).DenotesInteger n := by
  have hleaf := DenotesInteger.leaf (.ofInt n) (htext.trans (by rw [WholeNumeral.text_ofInt]))
    (by rwa [WholeNumeral.value_ofInt])
  rwa [WholeNumeral.value_ofInt] at hleaf

theorem Tree.DenotesInteger.natAbs_le {tree : Tree Literal} {n : Int}
    (hdenotes : tree.DenotesInteger n) : n.natAbs ≤ mantissaBound := by
  cases hdenotes with
  | leaf numeral htext hbound => exact hbound
  | binary hcombine hleft hright hbound => exact hbound

end Formula

/-! ## Whole arithmetics -/

/-- An arithmetic computes with whole numbers as integers do, where its numbers represent integers
as the relation says. -/
structure Arithmetic.ComputesWhole {α : Type} (arithmetic : Arithmetic α)
    (represents : α → Int → Prop) : Prop where
  exists_read (numeral : WholeNumeral) (hbound : numeral.value.natAbs ≤ mantissaBound) :
    ∃ x, arithmetic.read numeral.text = .ok x ∧ represents x numeral.value
  exists_binary {operation : BinaryOperation} {combine : Int → Int → Int} {x y : α} {m n : Int}
    (hcombine : operation.onIntegers? = some combine)
    (hx : represents x m) (hm : m.natAbs ≤ mantissaBound)
    (hy : represents y n) (hn : n.natAbs ≤ mantissaBound)
    (hbound : (combine m n).natAbs ≤ mantissaBound) :
    ∃ z, arithmetic.binary operation x y = .ok z ∧ represents z (combine m n)

/-- Such an arithmetic gives a formula of whole numbers the integer that it denotes. -/
theorem Formula.Tree.DenotesInteger.exists_value {α : Type} {arithmetic : Arithmetic α}
    {represents : α → Int → Prop} (hcomputes : arithmetic.ComputesWhole represents)
    (mode : AngleMode) {tree : Tree Literal} {n : Int} (hdenotes : tree.DenotesInteger n) :
    ∃ x, tree.value arithmetic mode (Literal.read arithmetic) = .ok x ∧ represents x n := by
  induction hdenotes with
  | leaf numeral htext hbound =>
      rw [Tree.value, Literal.read, htext]
      exact hcomputes.exists_read numeral hbound
  | binary hcombine hleft hright hbound ihleft ihright =>
      obtain ⟨x, hx, hxRepresents⟩ := ihleft
      obtain ⟨y, hy, hyRepresents⟩ := ihright
      obtain ⟨z, hz, hzRepresents⟩ := hcomputes.exists_binary hcombine hxRepresents
        hleft.natAbs_le hyRepresents hright.natAbs_le hbound
      refine ⟨z, ?_, hzRepresents⟩
      rw [Tree.value, hx, bind_ok, hy, bind_ok, hz]
      rfl

/-- Doubles compute with whole numbers as integers do. Only the sign of a zero is left open. -/
theorem Standard.computesWhole :
    Standard.arithmetic.ComputesWhole fun x n => x.toInt? = some n where
  exists_read numeral hbound := by
    rw [numeral.natAbs_value] at hbound
    refine ⟨Decimal.toDouble ⟨numeral.negative, numeral.size, 0⟩, ?_, ?_⟩
    · simp only [Standard.arithmetic, Standard.read, Double.ofText?, numeral.ofText?_text]
      rfl
    · refine Decimal.toInt?_toDouble ?_ hbound
      rw [Decimal.size, zpow_zero, mul_one]
  exists_binary {operation combine x y m n} hcombine hx hm hy hn hbound := by
    cases operation with
    | add =>
        obtain rfl := Option.some.inj hcombine
        exact ⟨x.add y, rfl, Double.toInt?_add hx hy hbound⟩
    | subtract =>
        obtain rfl := Option.some.inj hcombine
        exact ⟨x.sub y, rfl, Double.toInt?_sub hx hy hbound⟩
    | multiply =>
        obtain rfl := Option.some.inj hcombine
        exact ⟨x.mul y, rfl, Double.toInt?_mul hx hy hbound⟩
    | divide | power => cases hcombine

/-- The precise arithmetic computes with whole numbers as integers do if it has more bits than a
double. -/
theorem Precise.computesWhole {places : Nat} (hplaces : 40 ≤ places) :
    (Precise.arithmetic places).ComputesWhole fun x n => x = BigFloat.ofInt n where
  exists_read numeral hbound := by
    rw [numeral.natAbs_value] at hbound
    have hbits := BigFloat.lt_two_pow_bitsOfPlaces hplaces hbound
    refine ⟨BigFloat.ofDecimal (BigFloat.bitsOfPlaces places)
      ⟨numeral.negative, numeral.size, 0⟩, ?_, ?_⟩
    · simp only [Precise.arithmetic, Precise.read, BigFloat.ofText?, numeral.ofText?_text]
      rfl
    · exact BigFloat.ofDecimal_whole numeral.negative hbits
  exists_binary {operation combine x y m n} hcombine hx hm hy hn hbound := by
    subst hx hy
    have hm := BigFloat.lt_two_pow_bitsOfPlaces hplaces hm
    have hn := BigFloat.lt_two_pow_bitsOfPlaces hplaces hn
    have hbits := BigFloat.lt_two_pow_bitsOfPlaces hplaces hbound
    refine ⟨BigFloat.ofInt (combine m n), ?_, rfl⟩
    cases operation with
    | add =>
        obtain rfl := Option.some.inj hcombine
        exact congrArg Except.ok (BigFloat.add_ofInt hm hn hbits)
    | subtract =>
        obtain rfl := Option.some.inj hcombine
        exact congrArg Except.ok (BigFloat.sub_ofInt hm hn hbits)
    | multiply =>
        obtain rfl := Option.some.inj hcombine
        exact congrArg Except.ok (BigFloat.mul_ofInt hbits)
    | divide | power => cases hcombine

end SciCalc
