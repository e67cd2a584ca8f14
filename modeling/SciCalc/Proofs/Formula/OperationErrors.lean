import SciCalc.Precise.Arithmetic
import SciCalc.Proofs.Formula.Tree
import SciCalc.Standard.Arithmetic

/-! # Errors of operations

An operation of either arithmetic fails only for a reason of its own: a division by zero, a
number outside the domain of a function, or a factorial of what is no natural number. So a tree
fails for no other reason once its leaves can be read.
-/

namespace SciCalc

/-- The reasons for which an operation may fail. -/
def operationKinds : List ErrorKind :=
  [.divisionByZero, .invalidDomain, .invalidFactorialInput]

/-- The operations of the arithmetic fail for reasons of their own, and reading a literal reports
no error of a calculation. -/
structure Arithmetic.BlamesOperations {α : Type} (arithmetic : Arithmetic α) : Prop where
  binary : ∀ {operation left right error},
    arithmetic.binary operation left right = .error error → error.kind ∈ operationKinds
  unary : ∀ {mode function argument error},
    arithmetic.unary mode function argument = .error error → error.kind ∈ operationKinds
  read : ∀ {text error}, arithmetic.read text ≠ .error (.calculation error)

/-- The errors that operations report. -/
def operationErrors : List CalcError :=
  [.divisionByZero, .logarithmDomain .ln, .logarithmDomain .log, .squareRootDomain,
    .factorialDomain]

/-- The operations of the arithmetic report no errors but those of the list. -/
structure Arithmetic.ReportsListed {α : Type} (arithmetic : Arithmetic α) : Prop where
  binary : ∀ {operation left right error},
    arithmetic.binary operation left right = .error error → error ∈ operationErrors
  unary : ∀ {mode function argument error},
    arithmetic.unary mode function argument = .error error → error ∈ operationErrors

theorem kind_mem_of_mem_operationErrors {error : CalcError} (hmem : error ∈ operationErrors) :
    error.kind ∈ operationKinds := by
  have hall : ∀ error ∈ operationErrors, error.kind ∈ operationKinds := by decide
  exact hall error hmem

variable {α : Type}

/-- A guarded operation reports no error but that of its guard. -/
theorem mem_operationErrors_of_guard {guard : Prop} [Decidable guard] {failure error : CalcError}
    {value : α} (hfailure : failure ∈ operationErrors)
    (herror : (if guard then .error failure else .ok value : Except CalcError α) = .error error) :
    error ∈ operationErrors := by
  split at herror
  · obtain rfl := Except.error.inj herror
    exact hfailure
  · simp at herror

theorem Standard.reportsListed : Standard.arithmetic.ReportsListed where
  binary {operation left right error} herror := by
    cases operation with
    | add | subtract | multiply | power => simp [Standard.arithmetic, Standard.binary] at herror
    | divide => exact mem_operationErrors_of_guard (by decide) herror
  unary {mode function argument error} herror := by
    cases function with
    | sin | cos | tan | exp => simp [Standard.arithmetic, Standard.unary] at herror
    | ln | log | sqrt => exact mem_operationErrors_of_guard (by decide) herror
    | factorial =>
        simp only [Standard.arithmetic, Standard.unary, Standard.factorial] at herror
        split at herror
        · exact mem_operationErrors_of_guard (by decide) herror
        · obtain rfl := Except.error.inj herror
          decide

theorem Precise.reportsListed (places : Nat) : (Precise.arithmetic places).ReportsListed where
  binary {operation left right error} herror := by
    cases operation with
    | add | subtract | multiply | power => simp [Precise.arithmetic, Precise.binary] at herror
    | divide => exact mem_operationErrors_of_guard (by decide) herror
  unary {mode function argument error} herror := by
    cases function with
    | sin | cos | tan | exp => simp [Precise.arithmetic, Precise.unary] at herror
    | ln | log | sqrt | factorial => exact mem_operationErrors_of_guard (by decide) herror

theorem Standard.blamesOperations : Standard.arithmetic.BlamesOperations where
  binary herror := kind_mem_of_mem_operationErrors (Standard.reportsListed.binary herror)
  unary herror := kind_mem_of_mem_operationErrors (Standard.reportsListed.unary herror)
  read {text error} herror := by
    simp only [Standard.arithmetic, Standard.read] at herror
    split at herror <;> simp at herror

theorem Precise.blamesOperations (places : Nat) :
    (Precise.arithmetic places).BlamesOperations where
  binary herror := kind_mem_of_mem_operationErrors ((Precise.reportsListed places).binary herror)
  unary herror := kind_mem_of_mem_operationErrors ((Precise.reportsListed places).unary herror)
  read {text error} herror := by
    simp only [Precise.arithmetic, Precise.read] at herror
    split at herror <;> simp at herror

/-- A tree whose leaves report no error of a calculation fails only for the reason of one of its
operations. -/
theorem Formula.Tree.kind_of_value_eq_error {ν : Type} {arithmetic : Arithmetic α}
    (hblames : arithmetic.BlamesOperations) {mode : AngleMode} {read : ν → Except Fault α}
    (hread : ∀ content error, read content ≠ .error (.calculation error)) {tree : Tree ν}
    {error : CalcError} (herror : tree.value arithmetic mode read = .error (.calculation error)) :
    error.kind ∈ operationKinds := by
  induction tree with
  | leaf content => exact absurd herror (hread content error)
  | binary sign left right ihleft ihright =>
      rw [value, bind_eq_error_iff] at herror
      rcases herror with hleft | ⟨leftValue, _, herror⟩
      · exact ihleft hleft
      · rw [bind_eq_error_iff] at herror
        rcases herror with hright | ⟨rightValue, _, herror⟩
        · exact ihright hright
        · exact hblames.binary (ofCalculation_eq_error_iff.mp herror)
  | apply function argument ih =>
      rw [value, bind_eq_error_iff] at herror
      rcases herror with hargument | ⟨argumentValue, _, herror⟩
      · exact ih hargument
      · exact hblames.unary (ofCalculation_eq_error_iff.mp herror)

theorem Formula.Literal.read_ne_error {arithmetic : Arithmetic α}
    (hblames : arithmetic.BlamesOperations) (literal : Literal) (error : CalcError) :
    literal.read arithmetic ≠ .error (.calculation error) := by
  unfold Literal.read
  split
  · exact hblames.read
  · simp

end SciCalc
