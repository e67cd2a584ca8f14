import SciCalc.Formula.Evaluation
import SciCalc.Proofs.Outcome

/-! # Expression trees

What a formula says, apart from how it is written: numbers at the leaves, operators with a left
and a right operand, functions with one argument. The value of a tree is computed by recursion,
the left operand first, then the right one, then the operation; the first failure on that way is
the failure of the whole. The post-order of a tree is the list of its nodes, each after the
nodes below it.
-/

namespace SciCalc.Formula

/-- The operator signs. Multiplication and division have two each. -/
inductive OperatorSign where
  | plus
  | minus
  | times
  | asterisk
  | obelus
  | slash
  | caret
  deriving DecidableEq

namespace OperatorSign

/-- The sign as it is written. -/
def char : OperatorSign → Char
  | plus => '+'
  | minus => '-'
  | times => '×'
  | asterisk => '*'
  | obelus => '÷'
  | slash => '/'
  | caret => '^'

/-- What the sign stands for. -/
def operation : OperatorSign → BinaryOperation
  | plus => .add
  | minus => .subtract
  | times | asterisk => .multiply
  | obelus | slash => .divide
  | caret => .power

/-- The token of the sign. -/
def token (sign : OperatorSign) : Token := .ofSign sign.char

@[simp] theorem ofSymbol?_char (sign : OperatorSign) :
    BinaryOperation.ofSymbol? (String.singleton sign.char) = some sign.operation := by
  cases sign <;> decide

theorem exists_char_eq {c : Char} (hmem : c ∈ Lexeme.operatorSigns) :
    ∃ sign : OperatorSign, sign.char = c := by
  simp only [Lexeme.operatorSigns, List.mem_cons, List.not_mem_nil, or_false] at hmem
  rcases hmem with rfl | rfl | rfl | rfl | rfl | rfl | rfl
  · exact ⟨plus, rfl⟩
  · exact ⟨minus, rfl⟩
  · exact ⟨times, rfl⟩
  · exact ⟨obelus, rfl⟩
  · exact ⟨asterisk, rfl⟩
  · exact ⟨slash, rfl⟩
  · exact ⟨caret, rfl⟩

/-- A symbol that stands for an operation is that of a sign. -/
theorem exists_char_of_ofSymbol? {symbol : String} {meant : BinaryOperation}
    (hmeant : BinaryOperation.ofSymbol? symbol = some meant) :
    ∃ sign : OperatorSign, String.singleton sign.char = symbol := by
  simp only [BinaryOperation.ofSymbol?, Bool.or_eq_true, beq_iff_eq] at hmeant
  split at hmeant
  next hplus => exact ⟨plus, hplus.symm⟩
  split at hmeant
  next hminus => exact ⟨minus, hminus.symm⟩
  split at hmeant
  next htimes => exact htimes.elim (fun h => ⟨times, h.symm⟩) fun h => ⟨asterisk, h.symm⟩
  split at hmeant
  next hslash => exact hslash.elim (fun h => ⟨obelus, h.symm⟩) fun h => ⟨slash, h.symm⟩
  split at hmeant
  next hcaret => exact ⟨caret, hcaret.symm⟩
  · exact nomatch hmeant

end OperatorSign

@[simp] theorem ofName?_name (function : UnaryFunction) :
    UnaryFunction.ofName? function.name = some function := by
  cases function <;> decide

theorem ofName?_eq_some_iff {name : String} {function : UnaryFunction} :
    UnaryFunction.ofName? name = some function ↔ function.name = name := by
  constructor
  · intro hfunction
    simpa using List.find?_some hfunction
  · rintro rfl
    exact ofName?_name function

/-- A number in a formula: its value, and the text that it was written with if it has one. -/
structure Literal where
  value : Double
  text : Option String
  deriving DecidableEq

namespace Literal

/-- The token of the number. -/
def token (literal : Literal) : Token := .number literal.value literal.text

/-- A natural number written in decimal digits. -/
def ofNat (n : Nat) : Literal := ⟨Double.ofNat n, some (toString n)⟩

/-- What the number is in an arithmetic. One with a text is read from the text. -/
def read {α : Type} (arithmetic : Arithmetic α) (literal : Literal) : Except Fault α :=
  match literal.text with
  | some text => arithmetic.read text
  | none => .ok (arithmetic.ofDouble literal.value)

end Literal

/-- An expression tree with leaves of the given type. -/
inductive Tree (ν : Type) where
  | leaf (content : ν)
  | binary (sign : OperatorSign) (left right : Tree ν)
  | apply (function : UnaryFunction) (argument : Tree ν)

namespace Tree

variable {α ν μ : Type}

/-- The value of a tree whose leaves are read as the given function says. -/
def value (arithmetic : Arithmetic α) (mode : AngleMode) (read : ν → Except Fault α) :
    Tree ν → Except Fault α
  | leaf content => read content
  | binary sign left right => do
    let leftValue ← left.value arithmetic mode read
    let rightValue ← right.value arithmetic mode read
    ofCalculation (arithmetic.binary sign.operation leftValue rightValue)
  | apply function argument => do
    let argumentValue ← argument.value arithmetic mode read
    ofCalculation (arithmetic.unary mode function argumentValue)

/-- The tree with other leaves in the same places. -/
def map (change : ν → μ) : Tree ν → Tree μ
  | leaf content => leaf (change content)
  | binary sign left right => binary sign (left.map change) (right.map change)
  | apply function argument => apply function (argument.map change)

theorem value_map (arithmetic : Arithmetic α) (mode : AngleMode) (read : μ → Except Fault α)
    (change : ν → μ) (tree : Tree ν) :
    (tree.map change).value arithmetic mode read =
      tree.value arithmetic mode (fun content => read (change content)) := by
  induction tree with
  | leaf content => rfl
  | binary sign left right ihleft ihright => simp only [map, value, ihleft, ihright]
  | apply function argument ih => simp only [map, value, ih]

/-- The nodes of a tree as tokens, each after the nodes below it. -/
def postorder : Tree Literal → List Token
  | leaf literal => [literal.token]
  | binary sign left right => left.postorder ++ (right.postorder ++ [sign.token])
  | apply function argument => argument.postorder ++ [.function function.name]

end Tree

end SciCalc.Formula
