import SciCalc.Proofs.Formula.OperationErrors
import SciCalc.Proofs.Formula.Rearrangement
import SciCalc.Proofs.Formula.Tokenizable

/-! # Faults of an evaluation

An evaluation has a value or reports an error of a calculation. The other faults are out of reach:
every token is one that a piece of the text has become, so a text kept with a number can be read,
an operator has an operation of two operands and a function one of one argument.
-/

namespace SciCalc

variable {α β : Type}

/-- The call reports no fault but an error of a calculation. -/
def FailsAsCalculation (call : Except Fault α) : Prop :=
  ∀ fault, call = .error fault → ∃ error, fault = .calculation error

namespace FailsAsCalculation

theorem ok (value : α) : FailsAsCalculation (.ok value) := nofun

theorem error (error : CalcError) :
    FailsAsCalculation (.error (.calculation error) : Except Fault α) :=
  fun _ hfault => ⟨error, (Except.error.inj hfault).symm⟩

theorem failWith (kind : ErrorKind) (message : String) :
    FailsAsCalculation (SciCalc.failWith kind message : Except Fault α) :=
  error ⟨kind, message⟩

theorem fail (kind : ErrorKind) : FailsAsCalculation (SciCalc.fail kind : Except Fault α) :=
  failWith kind kind.defaultMessage

theorem ofCalculation (calculation : Except CalcError α) :
    FailsAsCalculation (SciCalc.ofCalculation calculation) := by
  cases calculation with
  | ok value => exact ok value
  | error reported => exact error reported

theorem bind {call : Except Fault α} {next : α → Except Fault β}
    (hcall : FailsAsCalculation call)
    (hnext : ∀ value, call = .ok value → FailsAsCalculation (next value)) :
    FailsAsCalculation (call >>= next) := by
  intro fault hfault
  rcases bind_eq_error_iff.mp hfault with herror | ⟨value, hvalue, herror⟩
  · exact hcall fault herror
  · exact hnext value hvalue fault herror

theorem map {call : Except Fault α} (hcall : FailsAsCalculation call) (change : α → β) :
    FailsAsCalculation (change <$> call) :=
  fun fault hfault => hcall fault (map_eq_error_iff.mp hfault)

/-- A call that has no value reports an error. -/
theorem exists_error {call : Except Fault α} (hcall : FailsAsCalculation call)
    (hvalue : ∀ value, call ≠ .ok value) : ∃ error, call = .error (.calculation error) := by
  cases hresult : call with
  | ok value => exact absurd hresult (hvalue value)
  | error fault =>
      obtain ⟨error, rfl⟩ := hcall fault hresult
      exact ⟨error, rfl⟩

end FailsAsCalculation

namespace Token

theorem failsAsCalculation_tokenize (formula : String) :
    FailsAsCalculation (tokenize formula) := by
  rcases tokenizable_or_refused formula.toList with haccepted | ⟨kind, hrefused⟩
  · obtain ⟨tokens, htokens⟩ := haccepted.exists_tokens
    exact htokens ▸ .ok tokens
  · obtain ⟨message, hmessage⟩ := hrefused.exists_message
    exact hmessage ▸ .failWith kind message

theorem failsAsCalculation_postfixFrom (stack tokens : List Token) :
    FailsAsCalculation (postfixFrom stack tokens) := by
  fun_induction postfixFrom stack tokens with
  | case1 stack hopening => exact .fail _
  | case2 stack hopening => exact .ok stack
  | case3 stack value text rest ih => exact ih.map _
  | case4 stack name rest ih => exact ih
  | case5 stack symbol precedence rest ih => exact ih.map _
  | case6 stack rest ih => exact ih
  | case7 stack rest hnone => exact .fail _
  | case8 stack rest opening below hbelow ih => exact ih.map _

/-- What holds of every parenthesis and of every token that is read holds of what is put out. -/
theorem forall_mem_toPostfix {P : Token → Prop} (hparen : ∀ isOpen, P (paren isOpen))
    {tokens ordered : List Token} (htokens : ∀ token ∈ tokens, P token)
    (hordered : toPostfix tokens = .ok ordered) : ∀ token ∈ ordered, P token := by
  classical
  have hcount := countP_postfixFrom (p := fun token => !decide (P token)) (by simp [hparen])
    hordered
  have hnone : tokens.countP (fun token => !decide (P token)) = 0 :=
    List.countP_eq_zero.mpr fun token hmem => by simpa using htokens token hmem
  rw [hnone, List.countP_nil, List.countP_eq_zero] at hcount
  exact fun token hmem => by simpa using hcount token hmem

end Token

namespace Formula

open Token

variable {arithmetic : Arithmetic α} {mode : AngleMode}

theorem failsAsCalculation_applyOperator (sign : OperatorSign) (stack : List α) :
    FailsAsCalculation (applyOperator arithmetic (String.singleton sign.char) stack) := by
  match stack with
  | [] | [_] => exact .fail _
  | right :: left :: stack =>
      simp only [applyOperator, OperatorSign.ofSymbol?_char]
      exact (FailsAsCalculation.ofCalculation _).map _

theorem failsAsCalculation_applyFunction (function : UnaryFunction) (stack : List α) :
    FailsAsCalculation (applyFunction arithmetic mode function.name stack) := by
  cases stack with
  | nil => exact .fail _
  | cons argument stack =>
      simp only [applyFunction, ofName?_name]
      exact (FailsAsCalculation.ofCalculation _).map _

/-- The arithmetic reads every text of a double, or says why it does not. -/
def ReadsDoubles (arithmetic : Arithmetic α) : Prop :=
  ∀ {text : String} {value : Double}, Double.ofText? text = some value →
    FailsAsCalculation (arithmetic.read text)

theorem readsDoubles_standard : ReadsDoubles Standard.arithmetic := by
  intro text value hvalue
  simp only [Standard.arithmetic, Standard.read, hvalue]
  exact .ok value

theorem failsAsCalculation_step (hreads : ReadsDoubles arithmetic) {token : Token}
    (harises : token.Arises) (stack : List α) :
    FailsAsCalculation (step arithmetic mode stack token) := by
  cases harises with
  | number hvalue => exact (hreads hvalue).map _
  | operator sign => exact failsAsCalculation_applyOperator sign stack
  | function meant => exact failsAsCalculation_applyFunction meant stack
  | paren isOpen => exact .fail _

theorem failsAsCalculation_run (hreads : ReadsDoubles arithmetic) {tokens : List Token}
    (harise : ∀ token ∈ tokens, token.Arises) (stack : List α) :
    FailsAsCalculation (run arithmetic mode stack tokens) := by
  induction tokens generalizing stack with
  | nil => exact .ok stack
  | cons token rest ih =>
      obtain ⟨htoken, hrest⟩ := List.forall_mem_cons.mp harise
      exact (failsAsCalculation_step hreads htoken stack).bind fun next _ => ih hrest next

theorem failsAsCalculation_single (stack : List α) : FailsAsCalculation (single stack) := by
  unfold single
  split
  · exact .ok _
  · exact .fail _

/-- An evaluation reports no fault but an error of a calculation. -/
theorem failsAsCalculation_evaluate (hreads : ReadsDoubles arithmetic) (mode : AngleMode)
    (formula : String) : FailsAsCalculation (evaluate arithmetic mode formula) := by
  refine (failsAsCalculation_tokenize formula).bind fun tokens htokens => ?_
  refine (failsAsCalculation_postfixFrom [] tokens).bind fun ordered hordered => ?_
  have harise := forall_mem_toPostfix .paren (placed_of_tokenize htokens).1 hordered
  exact (failsAsCalculation_run hreads harise []).bind fun stack _ =>
    failsAsCalculation_single stack

end Formula

end SciCalc
