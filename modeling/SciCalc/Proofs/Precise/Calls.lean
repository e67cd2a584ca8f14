import Mathlib.Data.List.Induction
import SciCalc.Precise.Calculator
import SciCalc.Proofs.Outcome

/-! # Calls of the precise calculator

The working digits belong to a call and not to its success: an evaluation starts again from the
initial digits and an expansion adds a step, and both do so before they try the formula. What is
remembered changes only on success. So calls that fail leave the calculator as it was except for
its working digits, and those are what the next expansion builds on. A formula that is shown alike
with any number of digits is answered alike by all calls.
-/

namespace SciCalc.PreciseCalculator

variable (calculator : PreciseCalculator)

/-! ## One call -/

/-- The digits that a call works with if the calculator has worked with the given digits so far. -/
def digitsFor (digits : Nat) : Command → Nat
  | .evaluate _ _ => calculator.initialDigits
  | .expand => if calculator.canExpand then digits + calculator.digitStep else digits

/-- The formula that a call tries, with its mode. -/
def requested : Command → Except Fault (String × AngleMode)
  | .evaluate formula mode => (formula, ·) <$> AngleMode.ofDatum mode
  | .expand =>
    match calculator.last with
    | none => .error (.calculation ⟨.invalidExpression, "No hay cálculo previo"⟩)
    | some (formula, mode, _) => .ok (formula, mode)

/-- What a call finds out: the formula that it tries, its mode, and its value at the digits that the
call works with. -/
def attempt (command : Command) : Except Fault (String × AngleMode × BigFloat) := do
  let (formula, mode) ← calculator.requested command
  let x ← value (calculator.digitsFor calculator.workingDigits command) mode formula
  return (formula, mode, x)

/-- The calculator with other working digits. -/
def withDigits (digits : Nat) : PreciseCalculator :=
  { calculator with workingDigits := digits }

/-- The calculator with what a call has found out, if it has found out anything. -/
def remember : Except Fault (String × AngleMode × BigFloat) → PreciseCalculator
  | .ok found => { calculator with last := some found }
  | .error _ => calculator

/-- The text that shows what a call has found out with the given digits. -/
def shown (digits : Nat) (found : String × AngleMode × BigFloat) : Datum :=
  .text (Precise.format found.2.2 digits)

variable {calculator} {command : Command}

/-- The computation behind a call, once it is known which formula the call tries. -/
theorem compute_of_requested {formula : String} {mode : AngleMode}
    (hrequested : calculator.requested command = .ok (formula, mode)) {digits : Nat}
    (hdigits : calculator.digitsFor calculator.workingDigits command = digits) :
    ((calculator.withDigits digits).compute mode formula).reply =
        shown digits <$> calculator.attempt command ∧
      ((calculator.withDigits digits).compute mode formula).state =
        (calculator.withDigits digits).remember (calculator.attempt command) := by
  have hattempt : calculator.attempt command = (formula, mode, ·) <$> value digits mode formula := by
    rw [attempt, hrequested, hdigits, bind_ok, map_eq_pure_bind]
  have hworking : (calculator.withDigits digits).workingDigits = digits := rfl
  rw [hattempt, compute, hworking]
  cases value digits mode formula <;> exact ⟨rfl, rfl⟩

/-- A call that has no formula to try fails. -/
theorem attempt_of_not_requested {fault : Fault}
    (hrequested : calculator.requested command = .error fault) :
    calculator.attempt command = .error fault := by
  rw [attempt, hrequested, bind_error]

/-- A call answers with what it finds out, and that is all that it remembers; the working digits
are those of the call even if it finds out nothing. -/
theorem apply_eq (calculator : PreciseCalculator) (command : Command) :
    (calculator.apply command).reply =
        shown (calculator.digitsFor calculator.workingDigits command) <$>
          calculator.attempt command ∧
      (calculator.apply command).state =
        (calculator.withDigits (calculator.digitsFor calculator.workingDigits command)).remember
          (calculator.attempt command) := by
  cases command with
  | evaluate formula given =>
      cases hmode : AngleMode.ofDatum given with
      | error fault =>
          have hrequested : calculator.requested (.evaluate formula given) = .error fault := by
            simp [requested, hmode]
          rw [attempt_of_not_requested hrequested]
          simp only [apply, evaluate, hmode]
          exact ⟨rfl, rfl⟩
      | ok mode =>
          simp only [apply, evaluate, hmode]
          exact compute_of_requested (by simp [requested, hmode]) rfl
  | expand =>
      cases hlast : calculator.last with
      | none =>
          have hrequested : calculator.requested .expand =
              .error (.calculation ⟨.invalidExpression, "No hay cálculo previo"⟩) := by
            simp only [requested, hlast]
          have hdigits : calculator.digitsFor calculator.workingDigits .expand =
              calculator.workingDigits := by simp [digitsFor, canExpand, hlast]
          rw [attempt_of_not_requested hrequested, hdigits]
          simp only [apply, expand, hlast]
          exact ⟨rfl, rfl⟩
      | some last =>
          have hrequested : calculator.requested .expand = .ok (last.1, last.2.1) := by
            simp only [requested, hlast]
          have hdigits : calculator.digitsFor calculator.workingDigits .expand =
              calculator.workingDigits + calculator.digitStep := by
            simp [digitsFor, canExpand, hlast]
          rw [hdigits]
          simp only [apply, expand, hlast]
          exact hlast ▸ compute_of_requested hrequested hdigits

/-- An evaluation shows the value of the formula at the initial digits. -/
theorem evaluate_reply (calculator : PreciseCalculator) (formula : String) (mode : Datum) :
    (calculator.evaluate formula mode).reply =
      (fun x => .text (Precise.format x calculator.initialDigits)) <$>
        Formula.evaluateIn (Precise.arithmetic (places calculator.initialDigits)) mode formula := by
  unfold evaluate Formula.evaluateIn
  cases AngleMode.ofDatum mode with
  | error fault => rfl
  | ok angleMode =>
      simp only [compute, value, bind_ok]
      cases Formula.evaluate (Precise.arithmetic (places calculator.initialDigits)) angleMode
        formula <;> rfl

/-- A call that fails leaves all but the working digits. -/
theorem state_of_failed (hfailed : (calculator.apply command).reply.isOk = false) :
    (calculator.apply command).state =
      calculator.withDigits (calculator.digitsFor calculator.workingDigits command) := by
  obtain ⟨hreply, hstate⟩ := apply_eq calculator command
  rw [hstate]
  cases hattempt : calculator.attempt command with
  | error fault => rfl
  | ok found => simp [hreply, hattempt, Except.isOk, Except.toBool] at hfailed

/-- An expansion shows the remembered formula with a step more than the working digits. -/
theorem expand_reply {formula : String} {mode : AngleMode} {x : BigFloat}
    (hlast : calculator.last = some (formula, mode, x)) :
    calculator.expand.reply =
      (fun y => .text (Precise.format y (calculator.workingDigits + calculator.digitStep))) <$>
        value (calculator.workingDigits + calculator.digitStep) mode formula := by
  have hdigits : calculator.digitsFor calculator.workingDigits .expand =
      calculator.workingDigits + calculator.digitStep := by simp [digitsFor, canExpand, hlast]
  have hattempt : calculator.attempt .expand = (formula, mode, ·) <$>
      value (calculator.workingDigits + calculator.digitStep) mode formula := by
    simp only [attempt, requested, hlast, hdigits, bind_ok, map_eq_pure_bind]
  have hreply := (apply_eq calculator .expand).1
  rw [hdigits, hattempt, ← comp_map] at hreply
  exact hreply

/-! ## Calls in turn -/

/-- The calculator after the calls have been made in turn. -/
def after : PreciseCalculator → List Command → PreciseCalculator
  | calculator, [] => calculator
  | calculator, command :: rest => (calculator.apply command).state.after rest

/-- The outcomes of the calls that are made in turn. -/
def outcomes : PreciseCalculator → List Command → List (Outcome PreciseCalculator)
  | _, [] => []
  | calculator, command :: rest =>
    calculator.apply command :: (calculator.apply command).state.outcomes rest

/-- The working digits after calls that remember nothing new. -/
def digitsAfter (calculator : PreciseCalculator) (commands : List Command) : Nat :=
  commands.foldl calculator.digitsFor calculator.workingDigits

def Command.isExpansion : Command → Bool
  | .evaluate _ _ => false
  | .expand => true

/-- How many expansions stand behind the last evaluation. -/
def expansions (commands : List Command) : Nat :=
  (commands.reverse.takeWhile Command.isExpansion).length

@[simp] theorem expansions_append_evaluate (commands : List Command) (formula : String)
    (mode : Datum) : expansions (commands ++ [.evaluate formula mode]) = 0 := by
  simp [expansions, Command.isExpansion]

@[simp] theorem expansions_append_expand (commands : List Command) :
    expansions (commands ++ [.expand]) = expansions commands + 1 := by
  simp [expansions, List.takeWhile, Command.isExpansion]

/-- The last evaluation starts again from the initial digits, and every expansion behind it adds a
step, provided that there is a formula to expand. -/
theorem digitsAfter_eq (calculator : PreciseCalculator) (commands : List Command) :
    calculator.digitsAfter commands =
      (if commands.all Command.isExpansion then calculator.workingDigits
        else calculator.initialDigits) +
      if calculator.canExpand then expansions commands * calculator.digitStep else 0 := by
  induction commands using List.reverseRecOn with
  | nil => simp [digitsAfter, expansions]
  | append_singleton commands command ih =>
      rw [digitsAfter] at ih
      rw [digitsAfter, List.foldl_append, List.foldl_cons, List.foldl_nil, ih]
      cases command with
      | evaluate formula mode => simp [digitsFor, Command.isExpansion]
      | expand =>
          have hall : (commands ++ [Command.expand]).all Command.isExpansion =
              commands.all Command.isExpansion := by
            rw [List.all_append]
            exact Bool.and_true _
          rw [digitsFor, hall, expansions_append_expand]
          split
          · rw [Nat.add_mul, Nat.one_mul, Nat.add_assoc]
          · rfl

/-- Calls that all fail leave all but the working digits. -/
theorem after_of_failed {commands : List Command}
    (hfailed : ∀ outcome ∈ calculator.outcomes commands, outcome.reply.isOk = false) :
    calculator.after commands = calculator.withDigits (calculator.digitsAfter commands) := by
  induction commands generalizing calculator with
  | nil => rfl
  | cons command rest ih =>
      obtain ⟨hcommand, hrest⟩ := List.forall_mem_cons.mp hfailed
      rw [state_of_failed hcommand] at hrest
      rw [after, state_of_failed hcommand, ih hrest]
      have hfor : ∀ digits, (calculator.withDigits digits).digitsFor = calculator.digitsFor := by
        intro digits
        funext before command
        cases command <;> rfl
      simp only [digitsAfter, List.foldl_cons, hfor]
      rfl

/-- Whatever has happened before, calls that fail leave the calculator as it was except for its
working digits: those are the initial ones from the last evaluation on, and a step more for every
expansion behind it. So the next expansion works with a step more than *these* digits, whatever
the last answer was shown with. -/
theorem failed_calls_keep_all_but_digits (initialDigits digitStep : Int)
    (history failing : List Command)
    (hfailed : ∀ outcome ∈ ((create initialDigits digitStep).after history).outcomes failing,
      outcome.reply.isOk = false) :
    let calculator := (create initialDigits digitStep).after history
    let digits := (if failing.all Command.isExpansion then calculator.workingDigits
        else calculator.initialDigits) +
      if calculator.canExpand then expansions failing * calculator.digitStep else 0
    calculator.after failing = { calculator with workingDigits := digits } ∧
      ∀ formula mode x, calculator.last = some (formula, mode, x) →
        (calculator.after failing).expand.reply =
          (fun y => .text (Precise.format y (digits + calculator.digitStep))) <$>
            value (digits + calculator.digitStep) mode formula := by
  intro calculator digits
  have hafter : calculator.after failing = calculator.withDigits digits := by
    rw [after_of_failed hfailed, digitsAfter_eq]
  refine ⟨hafter, fun formula mode x hlast => ?_⟩
  rw [hafter]
  exact expand_reply hlast

/-- A division by zero between two expansions takes the digits of the first one back. -/
theorem failed_calls_keep_all_but_digits_of_one_seventh :
    (∀ outcome ∈ ((create 20 10).after [.evaluate "1/7" (.text "rad"), .expand]).outcomes
        [.evaluate "1/0" (.text "rad")], outcome.reply.isOk = false) ∧
      ((create 20 10).after [.evaluate "1/7" (.text "rad"), .expand]).workingDigits = 30 ∧
      (((create 20 10).after [.evaluate "1/7" (.text "rad"), .expand]).after
        [.evaluate "1/0" (.text "rad")]).workingDigits = 20 := by
  have hfailed : ∀ outcome ∈
      ((create 20 10).after [.evaluate "1/7" (.text "rad"), .expand]).outcomes
        [.evaluate "1/0" (.text "rad")], outcome.reply.isOk = false := by decide +kernel
  refine ⟨hfailed, by decide +kernel, ?_⟩
  rw [(failed_calls_keep_all_but_digits 20 10 _ _ hfailed).1]
  decide +kernel

/-- A failed evaluation and a failed expansion both move the working digits, and the next expansion
shows that: after 30 digits it adds ten to 20, not to 30. -/
theorem failed_calls_move_digits :
    (let calculator := (create 20 10).after [.evaluate "1/7" (.text "rad"), .expand];
      (calculator.evaluate "1/0" (.text "rad")).reply =
          .error (.calculation (.ofKind .divisionByZero)) ∧
        calculator.workingDigits = 30 ∧
        (calculator.evaluate "1/0" (.text "rad")).state.workingDigits = 20 ∧
        calculator.expand.reply = .ok (.text "0.1428571428571428571428571428571428571429") ∧
        (calculator.evaluate "1/0" (.text "rad")).state.expand.reply =
          .ok (.text "0.142857142857142857142857142857")) ∧
    (let calculator := (create 20 10).after [.evaluate "1/(1/43*43-1)" (.text "rad")];
      calculator.expand.reply = .error (.calculation (.ofKind .divisionByZero)) ∧
        calculator.workingDigits = 20 ∧ calculator.expand.state.workingDigits = 30) := by
  decide +kernel

/-! ## Formulas with one text -/

/-- A formula that has a value with any number of digits, and is shown as the same text with all of
them. -/
def ShownAlways (formula : String) (mode : AngleMode) (text : String) : Prop :=
  ∀ digits, ∃ x, value digits mode formula = .ok x ∧ Precise.format x digits = text

namespace ShownAlways

variable {formula text : String} {mode : AngleMode} (hshown : ShownAlways formula mode text)

include hshown

theorem compute (calculator : PreciseCalculator) :
    (calculator.compute mode formula).reply = .ok (.text text) ∧
      ∃ x, (calculator.compute mode formula).state.last = some (formula, mode, x) := by
  obtain ⟨x, hvalue, rfl⟩ := hshown calculator.workingDigits
  simp only [PreciseCalculator.compute, hvalue]
  exact ⟨rfl, x, rfl⟩

/-- An expansion shows the text again and remembers the formula again. -/
theorem expand {calculator : PreciseCalculator} {x : BigFloat}
    (hlast : calculator.last = some (formula, mode, x)) :
    calculator.expand.reply = .ok (.text text) ∧
      ∃ y, calculator.expand.state.last = some (formula, mode, y) := by
  simp only [PreciseCalculator.expand, hlast]
  exact hshown.compute _

theorem reply_expansions {calculator : PreciseCalculator} {x : BigFloat}
    (hlast : calculator.last = some (formula, mode, x)) (count : Nat) :
    ∀ outcome ∈ calculator.outcomes (List.replicate count .expand),
      outcome.reply = .ok (.text text) := by
  induction count generalizing calculator x with
  | zero => exact fun outcome hmem => absurd hmem List.not_mem_nil
  | succ count ih =>
      obtain ⟨hreply, y, hnext⟩ := hshown.expand hlast
      exact List.forall_mem_cons.mpr ⟨hreply, ih hnext⟩

/-- Such a formula is answered with its text, and so is every request for more digits. -/
theorem reply_evaluate_expansions (calculator : PreciseCalculator) (count : Nat) :
    ∀ outcome ∈ calculator.outcomes
      (.evaluate formula (.text mode.name) :: List.replicate count .expand),
      outcome.reply = .ok (.text text) := by
  have hevaluate : calculator.evaluate formula (.text mode.name) =
      (calculator.withDigits calculator.initialDigits).compute mode formula := by
    cases mode <;> rfl
  obtain ⟨hreply, x, hlast⟩ := hshown.compute (calculator.withDigits calculator.initialDigits)
  rw [← hevaluate] at hreply hlast
  exact List.forall_mem_cons.mpr ⟨hreply, hshown.reply_expansions hlast count⟩

end ShownAlways

end SciCalc.PreciseCalculator
