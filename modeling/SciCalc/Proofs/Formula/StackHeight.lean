import SciCalc.Proofs.Formula.Faults
import SciCalc.Proofs.Formula.StackMachine

/-! # The height of the stack

How high the stack of values is depends on the tokens alone and on none of the values. So whether
a list in postfix order lacks an operand, or leaves too many values, is decided before anything
is computed. What an arithmetic adds is only the errors of its own operations.
-/

namespace SciCalc

/-- The height of a stack after a token, if the operands that the token takes are there. -/
def Token.heightAfter? (height : Nat) : Token → Option Nat
  | .number _ _ => some (height + 1)
  | .operator _ _ => if 2 ≤ height then some (height - 1) else none
  | .function _ => if 1 ≤ height then some height else none
  | .paren _ => none

namespace Formula

open Token

/-- The height of a stack after tokens in postfix order, if no operand is lacking. -/
def heightAfter? (height : Nat) (tokens : List Token) : Option Nat :=
  tokens.foldlM Token.heightAfter? height

/-- No token lacks an operand, and exactly one value remains. -/
def WellFormed (ordered : List Token) : Prop := heightAfter? 0 ordered = some 1

instance (ordered : List Token) : Decidable (WellFormed ordered) :=
  inferInstanceAs (Decidable (_ = _))

end Formula

/-- The error is one that an operation of the arithmetic reports. -/
inductive Arithmetic.Raises {α : Type} (arithmetic : Arithmetic α) : CalcError → Prop
  | binary {operation : BinaryOperation} {left right : α} {error : CalcError}
      (herror : arithmetic.binary operation left right = .error error) : Raises arithmetic error
  | unary {mode : AngleMode} {function : UnaryFunction} {argument : α} {error : CalcError}
      (herror : arithmetic.unary mode function argument = .error error) : Raises arithmetic error

theorem Arithmetic.Raises.kind_mem {α : Type} {arithmetic : Arithmetic α}
    (hblames : arithmetic.BlamesOperations) {error : CalcError}
    (hraises : arithmetic.Raises error) : error.kind ∈ operationKinds := by
  cases hraises with
  | binary herror => exact hblames.binary herror
  | unary herror => exact hblames.unary herror

/-- The arithmetic has a number for every text that a double can be read from. -/
def Arithmetic.ReadsNumerals {α : Type} (arithmetic : Arithmetic α) : Prop :=
  ∀ {text : String} {value : Double}, Double.ofText? text = some value →
    ∃ x, arithmetic.read text = .ok x

theorem Standard.readsNumerals : Standard.arithmetic.ReadsNumerals := by
  intro text value hvalue
  exact ⟨value, by simp [Standard.arithmetic, Standard.read, hvalue]⟩

theorem Precise.readsNumerals (places : Nat) : (Precise.arithmetic places).ReadsNumerals := by
  intro text value hvalue
  obtain ⟨numeral, hnumeral, -⟩ := Option.map_eq_some_iff.mp hvalue
  simp [Precise.arithmetic, Precise.read, BigFloat.ofText?, hnumeral]

/-! ## Postfix order has no parentheses -/

namespace Token

def isParen : Token → Bool
  | paren _ => true
  | _ => false

/-- A token that can wait: no closing parenthesis. -/
def CanWait (token : Token) : Prop := token.isParen = token.isOpening

theorem isParen_of_yieldsTo {symbol : String} {precedence : Int} {token : Token}
    (hyields : yieldsTo symbol precedence token = true) : token.isParen = false := by
  cases token <;> simp_all [yieldsTo, isParen]

theorem isParen_of_mem_takeWhile {stack : List Token} (hstack : ∀ token ∈ stack, token.CanWait)
    {token : Token} (hmem : token ∈ stack.takeWhile (!isOpening ·)) : token.isParen = false := by
  rw [hstack token ((List.takeWhile_prefix _).subset hmem)]
  simpa using List.all_eq_true.mp List.all_takeWhile token hmem

theorem isParen_of_mem_splitFunction {stack : List Token} {token : Token}
    (hmem : token ∈ (splitFunction stack).1) : token.isParen = false := by
  unfold splitFunction at hmem
  split at hmem
  · exact List.mem_singleton.mp hmem ▸ rfl
  · exact absurd hmem List.not_mem_nil

theorem mem_of_mem_splitFunction {stack : List Token} {token : Token}
    (hmem : token ∈ (splitFunction stack).2) : token ∈ stack := by
  unfold splitFunction at hmem
  split at hmem
  · exact List.mem_cons_of_mem _ hmem
  · exact hmem

/-- Closing parentheses never wait and opening ones are never put out. -/
theorem isParen_of_mem_postfixFrom {stack tokens ordered : List Token}
    (hstack : ∀ token ∈ stack, token.CanWait)
    (hordered : postfixFrom stack tokens = .ok ordered) :
    ∀ token ∈ ordered, token.isParen = false := by
  fun_induction postfixFrom stack tokens generalizing ordered with
  | case1 stack hopening => simp at hordered
  | case2 stack hopening =>
      obtain rfl := Except.ok.inj hordered
      intro token hmem
      rw [hstack token hmem]
      simpa using fun htrue => hopening (List.any_eq_true.mpr ⟨token, hmem, htrue⟩)
  | case3 stack value text rest ih =>
      obtain ⟨tail, htail, rfl⟩ := map_eq_ok_iff.mp hordered
      exact List.forall_mem_cons.mpr ⟨rfl, ih hstack htail⟩
  | case4 stack name rest ih => exact ih (List.forall_mem_cons.mpr ⟨rfl, hstack⟩) hordered
  | case5 stack symbol precedence rest ih =>
      obtain ⟨tail, htail, rfl⟩ := map_eq_ok_iff.mp hordered
      refine List.forall_mem_append.mpr ⟨fun token hmem => ?_, ih ?_ htail⟩
      · exact isParen_of_yieldsTo (List.all_eq_true.mp List.all_takeWhile token hmem)
      · exact List.forall_mem_cons.mpr ⟨rfl, fun token hmem =>
          hstack token ((List.dropWhile_suffix _).subset hmem)⟩
  | case6 stack rest ih => exact ih (List.forall_mem_cons.mpr ⟨rfl, hstack⟩) hordered
  | case7 stack rest hnone => simp at hordered
  | case8 stack rest opening below hbelow ih =>
      obtain ⟨tail, htail, rfl⟩ := map_eq_ok_iff.mp hordered
      have hwaiting : ∀ token ∈ below, token.CanWait := fun token hmem => hstack token
        ((List.dropWhile_suffix _).subset (hbelow ▸ List.mem_cons_of_mem opening hmem))
      refine List.forall_mem_append.mpr ⟨List.forall_mem_append.mpr ⟨fun token hmem => ?_,
        fun token hmem => ?_⟩, ih (fun token hmem => ?_) htail⟩
      · exact isParen_of_mem_takeWhile hstack hmem
      · exact isParen_of_mem_splitFunction hmem
      · exact hwaiting token (mem_of_mem_splitFunction hmem)

end Token

namespace Formula

open Token

variable {α : Type} {arithmetic : Arithmetic α} {mode : AngleMode}

/-! ## A call goes as its height foresees -/

/-- The call leaves a stack of the given height. Otherwise it reports the error of an operation, or
an operand is lacking. -/
inductive Foreseen (arithmetic : Arithmetic α) : Option Nat → Except Fault (List α) → Prop
  | reached (stack : List α) : Foreseen arithmetic (some stack.length) (.ok stack)
  | raised {height : Option Nat} {error : CalcError} (hraises : arithmetic.Raises error) :
      Foreseen arithmetic height (.error (.calculation error))
  | lacking : Foreseen arithmetic none (fail .invalidExpression)

theorem Foreseen.bind {height : Option Nat} {call : Except Fault (List α)}
    {later : Nat → Option Nat} {next : List α → Except Fault (List α)}
    (hcall : Foreseen arithmetic height call)
    (hnext : ∀ stack, Foreseen arithmetic (later stack.length) (next stack)) :
    Foreseen arithmetic (height >>= later) (call >>= next) := by
  cases hcall with
  | reached stack => exact hnext stack
  | raised hraises => exact .raised hraises
  | lacking => exact .lacking

/-- An operation puts its result on the stack or reports an error of its own. -/
theorem foreseen_of_calculation {calculation : Except CalcError α} (stack : List α)
    (hraises : ∀ error, calculation = .error error → arithmetic.Raises error) :
    Foreseen arithmetic (some (stack.length + 1)) ((· :: stack) <$> ofCalculation calculation) := by
  cases calculation with
  | ok value => exact .reached (value :: stack)
  | error error => exact .raised (hraises error rfl)

theorem foreseen_step (hreads : arithmetic.ReadsNumerals) {token : Token}
    (harises : token.Arises) (hparen : token.isParen = false) (stack : List α) :
    Foreseen arithmetic (token.heightAfter? stack.length) (step arithmetic mode stack token) := by
  cases harises with
  | number hvalue =>
      obtain ⟨x, hx⟩ := hreads hvalue
      rw [step, hx]
      exact .reached (x :: stack)
  | operator sign =>
      rcases stack with - | ⟨right, - | ⟨left, stack⟩⟩
      · exact .lacking
      · exact .lacking
      · rw [step_operatorSign]
        exact foreseen_of_calculation stack fun error herror => .binary herror
  | function meant =>
      cases stack with
      | nil => exact .lacking
      | cons argument stack =>
          rw [step_function]
          exact foreseen_of_calculation stack fun error herror => .unary herror
  | paren isOpen => simp [isParen] at hparen

/-- However the values come out, a run goes as the heights foresee. -/
theorem foreseen_run (hreads : arithmetic.ReadsNumerals) (mode : AngleMode) {tokens : List Token}
    (harise : ∀ token ∈ tokens, token.Arises) (hparen : ∀ token ∈ tokens, token.isParen = false)
    (stack : List α) :
    Foreseen arithmetic (heightAfter? stack.length tokens) (run arithmetic mode stack tokens) := by
  induction tokens generalizing stack with
  | nil => exact .reached stack
  | cons token rest ih =>
      obtain ⟨htoken, hrest⟩ := List.forall_mem_cons.mp harise
      obtain ⟨hnoparen, hnone⟩ := List.forall_mem_cons.mp hparen
      rw [run_cons, heightAfter?, List.foldlM_cons]
      exact (foreseen_step hreads htoken hnoparen stack).bind fun next => ih hrest hnone next

/-- Tokens in postfix order have a value only if they are well-formed; otherwise an operation
reports an error, or they are not well-formed and that is reported. -/
theorem evaluatePostfix_cases (hreads : arithmetic.ReadsNumerals) (mode : AngleMode)
    {tokens : List Token} (harise : ∀ token ∈ tokens, token.Arises)
    (hparen : ∀ token ∈ tokens, token.isParen = false) :
    (∃ value, evaluatePostfix arithmetic mode tokens = .ok value ∧ WellFormed tokens) ∨
    (∃ error, evaluatePostfix arithmetic mode tokens = .error (.calculation error) ∧
      arithmetic.Raises error) ∨
    evaluatePostfix arithmetic mode tokens = fail .invalidExpression ∧ ¬ WellFormed tokens := by
  have hforeseen := foreseen_run hreads mode harise hparen []
  rw [List.length_nil] at hforeseen
  unfold evaluatePostfix WellFormed
  generalize heightAfter? 0 tokens = height at hforeseen
  generalize run arithmetic mode [] tokens = outcome at hforeseen
  cases hforeseen with
  | reached stack =>
      rcases stack with - | ⟨value, - | ⟨second, stack⟩⟩
      · exact .inr (.inr ⟨rfl, by simp⟩)
      · exact .inl ⟨value, rfl, rfl⟩
      · exact .inr (.inr ⟨rfl, by simp⟩)
  | raised hraises => exact .inr (.inl ⟨_, rfl, hraises⟩)
  | lacking => exact .inr (.inr ⟨rfl, by simp⟩)

end Formula

end SciCalc
