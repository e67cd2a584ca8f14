import Mathlib.Control.Monad.Basic
import SciCalc.Failure

/-! # Outcomes of calls

A call succeeds with a value or fails with a fault, and a later call only runs on a success.
These laws take a success of the whole apart into the successes of its parts.
-/

namespace SciCalc

variable {α β ε : Type}

@[simp] theorem bind_ok (value : α) (next : α → Except ε β) :
    (Except.ok value >>= next) = next value := rfl

@[simp] theorem bind_error (failure : ε) (next : α → Except ε β) :
    ((Except.error failure : Except ε α) >>= next) = Except.error failure := rfl

theorem bind_eq_ok_iff {call : Except ε α} {next : α → Except ε β} {result : β} :
    (call >>= next) = .ok result ↔ ∃ value, call = .ok value ∧ next value = .ok result := by
  cases call <;> simp

theorem bind_eq_error_iff {call : Except ε α} {next : α → Except ε β}
    {failure : ε} :
    (call >>= next) = .error failure ↔
      call = .error failure ∨ ∃ value, call = .ok value ∧ next value = .error failure := by
  cases call <;> simp

theorem map_eq_ok_iff {call : Except ε α} {change : α → β} {result : β} :
    change <$> call = .ok result ↔ ∃ value, call = .ok value ∧ change value = result := by
  cases call <;> simp

theorem map_eq_error_iff {call : Except ε α} {change : α → β} {failure : ε} :
    change <$> call = .error failure ↔ call = .error failure := by
  cases call <;> simp

@[simp] theorem fail_ne_ok (kind : ErrorKind) (value : α) : fail kind ≠ .ok value := by
  simp [fail]

@[simp] theorem failWith_ne_ok (kind : ErrorKind) (message : String) (value : α) :
    failWith kind message ≠ .ok value := by
  simp [failWith]

theorem failWith_inj {kind other : ErrorKind} {message text : String} :
    (failWith kind message : Except Fault α) = failWith other text ↔
      kind = other ∧ message = text := by
  simp [failWith]

@[simp] theorem ofCalculation_eq_ok_iff {calculation : Except CalcError α} {value : α} :
    ofCalculation calculation = .ok value ↔ calculation = .ok value := by
  cases calculation <;> simp [ofCalculation]

theorem ofCalculation_eq_error_iff {calculation : Except CalcError α} {error : CalcError} :
    ofCalculation calculation = .error (.calculation error) ↔ calculation = .error error := by
  cases calculation <;> simp [ofCalculation]

end SciCalc
