import SciCalc.Precise.Calculator
import SciCalc.Proofs.BigFloat.Normal
import SciCalc.Proofs.Formula.StackMachine

/-! # Values in normal form

What holds of every number that an arithmetic reads or computes holds of every value on the stack,
and so of the value of a formula. The precise arithmetic makes numbers in normal form only, so the
value of a formula is an integer just if it is the normal form of that integer.
-/

namespace SciCalc

variable {α : Type}

/-- The property holds of everything that the arithmetic reads or computes. -/
structure Arithmetic.Makes (arithmetic : Arithmetic α) (P : α → Prop) : Prop where
  read : ∀ {text : String} {x : α}, arithmetic.read text = .ok x → P x
  ofDouble : ∀ x : Double, P (arithmetic.ofDouble x)
  binary : ∀ {operation : BinaryOperation} {left right x : α},
    arithmetic.binary operation left right = .ok x → P x
  unary : ∀ {mode : AngleMode} {function : UnaryFunction} {argument x : α},
    arithmetic.unary mode function argument = .ok x → P x

namespace Formula

variable {arithmetic : Arithmetic α} {mode : AngleMode} {P : α → Prop}
  (hmakes : arithmetic.Makes P)

include hmakes

/-- A step puts at most one value on the stack, which is read or computed. -/
theorem forall_mem_of_step {token : Token} {stack next : List α} (hstack : ∀ x ∈ stack, P x)
    (hstep : step arithmetic mode stack token = .ok next) : ∀ x ∈ next, P x := by
  cases step_eq_ok_iff.mp hstep with
  | number literal hread =>
      refine List.forall_mem_cons.mpr ⟨?_, hstack⟩
      obtain ⟨value, text⟩ := literal
      cases text with
      | none =>
          obtain rfl := Except.ok.inj hread
          exact hmakes.ofDouble value
      | some text => exact hmakes.read hread
  | operator sign precedence hoperation =>
      obtain ⟨-, hrest⟩ := List.forall_mem_cons.mp hstack
      obtain ⟨-, hbelow⟩ := List.forall_mem_cons.mp hrest
      exact List.forall_mem_cons.mpr ⟨hmakes.binary hoperation, hbelow⟩
  | function meant hmeant =>
      obtain ⟨-, hbelow⟩ := List.forall_mem_cons.mp hstack
      exact List.forall_mem_cons.mpr ⟨hmakes.unary hmeant, hbelow⟩

theorem forall_mem_of_run {tokens : List Token} {stack last : List α}
    (hstack : ∀ x ∈ stack, P x) (hrun : run arithmetic mode stack tokens = .ok last) :
    ∀ x ∈ last, P x := by
  induction tokens generalizing stack with
  | nil =>
      obtain rfl := Except.ok.inj hrun
      exact hstack
  | cons token rest ih =>
      obtain ⟨next, hstep, hrest⟩ := bind_eq_ok_iff.mp hrun
      exact ih (forall_mem_of_step hmakes hstack hstep) hrest

/-- The value of a formula is one of the numbers that the arithmetic makes. -/
theorem of_evaluate {formula : String} {x : α}
    (hvalue : evaluate arithmetic mode formula = .ok x) : P x := by
  obtain ⟨tokens, -, hrest⟩ := bind_eq_ok_iff.mp hvalue
  obtain ⟨ordered, -, hpostfix⟩ := bind_eq_ok_iff.mp hrest
  obtain ⟨stack, hrun, hsingle⟩ := bind_eq_ok_iff.mp hpostfix
  have hstack := forall_mem_of_run hmakes (List.forall_mem_nil P) hrun
  obtain rfl := single_eq_ok_iff.mp hsingle
  exact hstack x List.mem_cons_self

end Formula

namespace Precise

open BigFloat

theorem isNormal_power (bits : Nat) (base exponent : BigFloat) :
    (power bits base exponent).IsNormal := by
  unfold power
  split
  · trivial
  · exact isNormal_pow _ _ _

/-- The precise arithmetic makes numbers in normal form only. -/
theorem makes_isNormal (places : Nat) : (arithmetic places).Makes IsNormal where
  read {text x} hread := by
    change read _ text = .ok x at hread
    unfold read at hread
    split at hread
    next hsome => exact Except.ok.inj hread ▸ isNormal_of_ofText? _ _ hsome
    next => cases hread
  ofDouble x := isNormal_ofDouble x
  binary {operation left right x} hbinary := by
    change binary _ operation left right = .ok x at hbinary
    cases operation with
    | add => exact Except.ok.inj hbinary ▸ isNormal_add _ _ _
    | subtract => exact Except.ok.inj hbinary ▸ isNormal_add _ _ _
    | multiply => exact Except.ok.inj hbinary ▸ isNormal_mul _ _ _
    | divide =>
        simp only [binary] at hbinary
        split at hbinary
        · cases hbinary
        · exact Except.ok.inj hbinary ▸ isNormal_div _ _ _
    | power => exact Except.ok.inj hbinary ▸ isNormal_power _ _ _
  unary {mode function argument x} hunary := by
    change unary _ mode function argument = .ok x at hunary
    cases function with
    | sin => exact Except.ok.inj hunary ▸ isNormal_ofAngle _ _ isNormal_zero _
    | cos => exact Except.ok.inj hunary ▸ isNormal_ofAngle _ _ isNormal_one _
    | tan => exact Except.ok.inj hunary ▸ isNormal_ofAngle _ _ isNormal_zero _
    | ln =>
        simp only [unary] at hunary
        split at hunary
        · cases hunary
        · exact Except.ok.inj hunary ▸ isNormal_ln _ _
    | log =>
        simp only [unary] at hunary
        split at hunary
        · cases hunary
        · exact Except.ok.inj hunary ▸ isNormal_div _ _ _
    | sqrt =>
        simp only [unary] at hunary
        split at hunary
        · cases hunary
        · exact Except.ok.inj hunary ▸ isNormal_sqrt _ _
    | exp => exact Except.ok.inj hunary ▸ isNormal_exp _ _
    | factorial =>
        simp only [unary, factorial] at hunary
        split at hunary
        · cases hunary
        · exact Except.ok.inj hunary ▸ isNormal_factorial _ _

end Precise

/-- Where the value of a formula is an integer, it is the normal form of the integer. -/
theorem PreciseCalculator.eq_ofInt_of_value {digits : Nat} {mode : AngleMode} {formula : String}
    {x : BigFloat} (hvalue : value digits mode formula = .ok x) {n : Int} (hn : x.Denotes n) :
    x = BigFloat.ofInt n :=
  (Formula.of_evaluate (Precise.makes_isNormal _) hvalue).eq_ofInt hn

end SciCalc
