import SciCalc.Proofs.Calls
import SciCalc.Proofs.Formula.Stages
import SciCalc.Proofs.Precise.MoreDigits

/-! # The notebook of the precise calculator

What the calculator remembers can be kept in a notebook: the formula, its mode and its value are
entries of their own, written one after the other, and an expansion rewrites the value alone. More
digits can be asked for once there is a formula, and they are refused if the formula is empty. These
are two different questions, and a third one is whether there is a value.

They have the same answer because only what has been evaluated is written down, and a formula
without tokens cannot be evaluated. So the notebook is what the calculator remembers, and each call
is answered alike.
-/

namespace SciCalc

open PreciseCalculator (Command places)

/-- A precise calculator whose memory is a formula, a mode and a value. -/
structure Notebook where
  initialDigits : Nat
  digitStep : Nat
  workingDigits : Nat
  formula : Option String
  mode : Datum
  value : Option BigFloat

namespace Notebook

def create (initialDigits digitStep : Int) : Notebook :=
  let blank := PreciseCalculator.create initialDigits digitStep
  ⟨blank.initialDigits, blank.digitStep, blank.workingDigits, none, .text "rad", none⟩

/-- There is a formula. -/
def canExpand (notebook : Notebook) : Bool := notebook.formula.isSome

/-- Evaluates a formula with the initial digits; the value is written down before the formula and
the mode are. -/
def evaluate (notebook : Notebook) (formula : String) (mode : Datum) : Outcome Notebook :=
  let started := { notebook with workingDigits := notebook.initialDigits }
  match Formula.evaluateIn (Precise.arithmetic (places started.workingDigits)) mode formula with
  | .error fault => .failed fault started
  | .ok x =>
    let valued := { started with value := some x }
    let noted := { valued with formula := some formula, mode := mode }
    .answer (.text (Precise.format x noted.workingDigits)) noted

/-- The fault of an expansion without a formula. -/
def noPrevious : Fault := .calculation ⟨.invalidExpression, "No hay cálculo previo"⟩

/-- Evaluates a formula with the working digits and writes down the value alone. -/
def recompute (notebook : Notebook) (formula : String) : Outcome Notebook :=
  match Formula.evaluateIn (Precise.arithmetic (places notebook.workingDigits)) notebook.mode
    formula with
  | .error fault => .failed fault notebook
  | .ok x =>
    .answer (.text (Precise.format x notebook.workingDigits)) { notebook with value := some x }

/-- What is reported before more digits are worked out. -/
def announced (digits : Nat) : List Record :=
  Record.about (.number (.int digits)) fun text =>
    .debug .precise ("Ampliando precisión a " ++ text ++ " dígitos")

/-- Evaluates the formula again with more digits, unless it is missing or empty. -/
def expand (notebook : Notebook) : Outcome Notebook :=
  let formula := notebook.formula.getD ""
  if formula = "" then .failed noPrevious notebook
  else
    let digits := notebook.workingDigits + notebook.digitStep
    { { notebook with workingDigits := digits }.recompute formula with
      records := announced digits }

def apply (notebook : Notebook) : Command → Outcome Notebook
  | .evaluate formula mode => notebook.evaluate formula mode
  | .expand => notebook.expand

end Notebook

namespace PreciseCalculator

/-! ## What is remembered -/

/-- The formula that is remembered, with its mode. -/
def remembered (calculator : PreciseCalculator) : Option (String × Datum) :=
  calculator.last.map fun (formula, mode, _) => (formula, .text mode.name)

/-- What is remembered has been tokenized. -/
def IsTokenized (calculator : PreciseCalculator) : Prop :=
  ∀ last ∈ calculator.last, ∃ tokens, Token.tokenize last.1 = .ok tokens

/-- The formula that a call brings along, with its mode. -/
def Command.evaluation? : Command → Option (String × Datum)
  | .evaluate formula mode => some (formula, mode)
  | .expand => none

variable {calculator : PreciseCalculator} {command : Command} {formula : String}
  {mode : AngleMode} {x : BigFloat}

theorem remembered_of_last (hlast : calculator.last = some (formula, mode, x)) :
    calculator.remembered = some (formula, .text mode.name) := by
  rw [remembered, hlast]
  rfl

/-- An answered call remembers the formula that it brings along, or the one remembered before. -/
theorem remembered_of_answered (hok : (calculator.apply command).reply.isOk) :
    (calculator.apply command).state.remembered = command.evaluation?.or calculator.remembered := by
  obtain ⟨formula, mode, x, hrequested, -, hstands⟩ := exists_standsAt_of_apply hok
  rw [remembered_of_last hstands.last]
  cases command with
  | evaluate given namedMode =>
      obtain ⟨_, hmode, hpair⟩ := map_eq_ok_iff.mp hrequested
      obtain ⟨rfl, rfl⟩ := Prod.mk.inj hpair
      rw [Formula.ofDatum_eq_ok_iff.mp hmode]
      rfl
  | expand =>
      cases hlast : calculator.last with
      | none => simp [requested, hlast] at hrequested
      | some last =>
          rw [requested, hlast] at hrequested
          obtain ⟨rfl, rfl⟩ := Prod.mk.inj (Except.ok.inj hrequested)
          exact (remembered_of_last hlast).symm

/-- A call that fails remembers nothing else than before. -/
theorem last_of_failed (hfailed : (calculator.apply command).reply.isOk = false) :
    (calculator.apply command).state.last = calculator.last := by
  rw [state_of_failed hfailed]
  rfl

theorem isTokenized_apply (htokenized : calculator.IsTokenized) (command : Command) :
    (calculator.apply command).state.IsTokenized := by
  cases hok : (calculator.apply command).reply.isOk with
  | true =>
      obtain ⟨formula, mode, x, -, -, hstands⟩ := exists_standsAt_of_apply hok
      obtain ⟨tokens, htokens, -⟩ := bind_eq_ok_iff.mp hstands.value
      rw [IsTokenized, hstands.last]
      rintro _ ⟨⟩
      exact ⟨tokens, htokens⟩
  | false =>
      rw [IsTokenized, last_of_failed hok]
      exact htokenized

variable (initialDigits digitStep : Int) (commands : List Command)

theorem isTokenized_afterCalls :
    (afterCalls apply (create initialDigits digitStep) commands).IsTokenized := by
  refine afterCalls_of_invariant IsTokenized ?_ ?_ commands
  · exact fun _ command htokenized => isTokenized_apply htokenized command
  · exact fun last hlast => absurd hlast (Option.not_mem_none last)

/-- The formula of the last evaluation that has been answered is remembered. -/
theorem remembered_afterCalls :
    (afterCalls apply (create initialDigits digitStep) commands).remembered =
      ((answeredCalls apply (create initialDigits digitStep) commands).filterMap
        Command.evaluation?).getLast? := by
  induction commands using List.reverseRecOn with
  | nil => rfl
  | append_singleton commands command ih =>
      rw [afterCalls_concat, answeredCalls_concat, List.filterMap_append, List.getLast?_append,
        ← ih]
      cases hok : ((afterCalls apply (create initialDigits digitStep) commands).apply
          command).reply.isOk with
      | true =>
          rw [remembered_of_answered hok]
          cases hevaluation : command.evaluation? <;> simp [hevaluation]
      | false =>
          rw [remembered, last_of_failed hok]
          rfl

/-! ## The calculator as a notebook -/

/-- The notebook with what the calculator remembers. -/
def notebook (calculator : PreciseCalculator) : Notebook where
  initialDigits := calculator.initialDigits
  digitStep := calculator.digitStep
  workingDigits := calculator.workingDigits
  formula := calculator.remembered.map Prod.fst
  mode := (calculator.remembered.map Prod.snd).getD (.text "rad")
  value := calculator.lastValue

@[simp] theorem initialDigits_notebook (calculator : PreciseCalculator) :
    calculator.notebook.initialDigits = calculator.initialDigits := rfl

@[simp] theorem workingDigits_notebook (calculator : PreciseCalculator) :
    calculator.notebook.workingDigits = calculator.workingDigits := rfl

/-- What is done to the calculator, as it is done to the notebook. -/
def noted (outcome : Outcome PreciseCalculator) : Outcome Notebook :=
  ⟨outcome.reply, outcome.state.notebook, outcome.records⟩

theorem evaluate_notebook (calculator : PreciseCalculator) (formula : String) (given : Datum) :
    calculator.notebook.evaluate formula given = noted (calculator.evaluate formula given) := by
  simp only [Notebook.evaluate, evaluate, initialDigits_notebook]
  obtain ⟨mode, rfl⟩ | ⟨-, hfails⟩ := Formula.ofDatum_cases given
  · simp only [Formula.evaluateIn_text_name, Formula.ofDatum_text_name, compute, value]
    cases Formula.evaluate (Precise.arithmetic (places calculator.initialDigits)) mode formula <;>
      rfl
  · simp only [Formula.evaluateIn, hfails]
    rfl

/-- Evaluating the remembered formula again writes down nothing but its value. -/
theorem recompute_notebook
    (hremembered : calculator.remembered = some (formula, .text mode.name)) :
    calculator.notebook.recompute formula = noted (calculator.compute mode formula) := by
  have hvalue : Formula.evaluateIn (Precise.arithmetic (places calculator.workingDigits))
      calculator.notebook.mode formula = value calculator.workingDigits mode formula := by
    simp only [notebook, hremembered]
    exact Formula.evaluateIn_text_name _ mode formula
  rw [Notebook.recompute, workingDigits_notebook, hvalue, compute]
  cases value calculator.workingDigits mode formula with
  | error fault => rfl
  | ok x =>
      have hagain : { calculator.notebook with value := some x } =
          { calculator with last := some (formula, mode, x) }.notebook := by
        simp only [notebook, hremembered]
        rfl
      exact congrArg (Outcome.answer _) hagain

theorem expand_notebook (htokenized : calculator.IsTokenized) :
    calculator.notebook.expand = noted calculator.expand := by
  cases hlast : calculator.last with
  | none =>
      have hempty : calculator.notebook.formula.getD "" = "" := by
        simp only [notebook, remembered, hlast]
        rfl
      rw [Notebook.expand, expand, hlast]
      exact if_pos hempty
  | some last =>
      obtain ⟨formula, mode, x⟩ := last
      obtain ⟨tokens, htokens⟩ := htokenized _ hlast
      have hremembered := remembered_of_last hlast
      have hformula : calculator.notebook.formula.getD "" = formula := by
        simp only [notebook, hremembered]
        rfl
      -- a formula that has been tokenized is not empty
      have hfull : formula ≠ "" := by
        rintro rfl
        cases htokens
      let digits := calculator.workingDigits + calculator.digitStep
      have hnotebook : calculator.notebook.expand =
          { (calculator.withDigits digits).notebook.recompute formula with
            records := Notebook.announced digits } := by
        rw [Notebook.expand, hformula]
        exact if_neg hfull
      have hcalculator : calculator.expand =
          { (calculator.withDigits digits).compute mode formula with
            records := Notebook.announced digits } := by
        rw [expand, hlast, withDigits, hlast]
        rfl
      have hexpanded : (calculator.withDigits digits).remembered =
          some (formula, .text mode.name) := hremembered
      rw [hnotebook, hcalculator, recompute_notebook hexpanded]
      rfl

/-- What a call does to the notebook is what it does to the calculator. -/
theorem apply_notebook (htokenized : calculator.IsTokenized) (command : Command) :
    calculator.notebook.apply command = noted (calculator.apply command) := by
  cases command with
  | evaluate formula given => exact calculator.evaluate_notebook formula given
  | expand => exact expand_notebook htokenized

/-- After any calls the notebook holds what the calculator remembers, and the same calls have been
answered. -/
theorem afterCalls_notebook :
    afterCalls Notebook.apply (.create initialDigits digitStep) commands =
        (afterCalls apply (create initialDigits digitStep) commands).notebook ∧
      answeredCalls Notebook.apply (.create initialDigits digitStep) commands =
        answeredCalls apply (create initialDigits digitStep) commands := by
  induction commands using List.reverseRecOn with
  | nil => exact ⟨rfl, rfl⟩
  | append_singleton commands command ih =>
      have htokenized := isTokenized_afterCalls initialDigits digitStep commands
      rw [afterCalls_concat, afterCalls_concat, answeredCalls_concat, answeredCalls_concat, ih.1,
        ih.2, apply_notebook htokenized]
      exact ⟨rfl, rfl⟩

/-! ## The three questions -/

theorem canExpand_notebook (calculator : PreciseCalculator) :
    calculator.notebook.canExpand = calculator.canExpand := by
  rw [Notebook.canExpand, notebook, Option.isSome_map, remembered, Option.isSome_map, canExpand]

theorem isSome_value_notebook (calculator : PreciseCalculator) :
    calculator.notebook.value.isSome = calculator.canExpand := by
  rw [notebook, lastValue, Option.isSome_map, canExpand]

/-- More digits can be asked for once an evaluation has been answered. -/
theorem canExpand_afterCalls_iff :
    (afterCalls apply (create initialDigits digitStep) commands).canExpand = true ↔
      ∃ formula mode, Command.evaluate formula mode ∈
        answeredCalls apply (create initialDigits digitStep) commands := by
  have hremembered := remembered_afterCalls initialDigits digitStep commands
  rw [← canExpand_notebook, Notebook.canExpand, notebook, Option.isSome_map, hremembered,
    List.getLast?_isSome, ne_eq, List.filterMap_eq_nil_iff]
  constructor
  · intro hsome
    simp only [not_forall] at hsome
    obtain ⟨command, hcommand, hevaluation⟩ := hsome
    cases command with
    | evaluate formula mode => exact ⟨formula, mode, hcommand⟩
    | expand => exact absurd rfl hevaluation
  · rintro ⟨formula, mode, hcommand⟩ hnone
    cases hnone _ hcommand

/-- What can be expanded is a formula that has been tokenized, in one of the two modes. -/
theorem exists_of_canExpand (htokenized : calculator.IsTokenized)
    (hexpand : calculator.canExpand = true) :
    ∃ formula mode tokens, calculator.remembered = some (formula, .text (AngleMode.name mode)) ∧
      Token.tokenize formula = .ok tokens := by
  obtain ⟨⟨formula, mode, x⟩, hlast⟩ := Option.isSome_iff_exists.mp hexpand
  obtain ⟨tokens, htokens⟩ := htokenized _ hlast
  exact ⟨formula, mode, tokens, remembered_of_last hlast, htokens⟩

/-- An expansion is refused if there is nothing to expand, and for no other reason with the same
message. -/
theorem expand_refused_iff (htokenized : calculator.IsTokenized) :
    calculator.expand.reply = .error Notebook.noPrevious ↔ calculator.canExpand = false := by
  cases hlast : calculator.last with
  | none =>
      rw [expand, canExpand, hlast]
      exact iff_of_true rfl rfl
  | some last =>
      obtain ⟨formula, mode, x⟩ := last
      obtain ⟨tokens, htokens⟩ := htokenized _ hlast
      rw [expand_reply hlast, map_eq_error_iff, canExpand, hlast]
      refine iff_of_false (fun hrefused => ?_) (by simp)
      have hmessage := Formula.message_of_tokenize (Precise.readsNumerals _)
        (Precise.blamesOperations _) htokens hrefused
      exact absurd hmessage (by decide)

/-- Whatever calls have been made, failing ones included, the entries of the notebook agree. There
is a formula exactly if there is a value, and exactly if some evaluation has been answered; then it
is the formula of the last one, with its mode, and it is not blank but consists of tokens. More
digits are refused exactly if there is none. And the notebook holds what the calculator remembers:
each call is answered and reported alike. -/
theorem entries_agree (initialDigits digitStep : Int) (commands : List Command) :
    let calculator := afterCalls apply (create initialDigits digitStep) commands
    let notebook := afterCalls Notebook.apply (.create initialDigits digitStep) commands
    let answered := answeredCalls Notebook.apply (.create initialDigits digitStep) commands
    (notebook = calculator.notebook ∧ notebook.canExpand = calculator.canExpand ∧
        ∀ command, notebook.apply command = noted (calculator.apply command)) ∧
      (notebook.canExpand = true ↔ notebook.value.isSome) ∧
      (notebook.canExpand = true ↔ ∃ formula mode, .evaluate formula mode ∈ answered) ∧
      (notebook.canExpand = true → ∃ (formula : String) (mode : AngleMode) (tokens : List Token),
        notebook.formula = some formula ∧ notebook.mode = .text mode.name ∧
        (answered.filterMap Command.evaluation?).getLast? = some (formula, .text mode.name) ∧
        Text.isAllBlank formula = false ∧ Token.tokenize formula = .ok tokens) ∧
      (notebook.expand.reply = .error Notebook.noPrevious ↔ notebook.canExpand = false) := by
  intro calculator notebook answered
  have hnotebook : notebook = calculator.notebook :=
    (afterCalls_notebook initialDigits digitStep commands).1
  have hanswered : answered = answeredCalls apply (create initialDigits digitStep) commands :=
    (afterCalls_notebook initialDigits digitStep commands).2
  have htokenized : calculator.IsTokenized :=
    isTokenized_afterCalls initialDigits digitStep commands
  have hcanExpand : notebook.canExpand = calculator.canExpand := by
    rw [hnotebook, canExpand_notebook]
  refine ⟨⟨hnotebook, hcanExpand, fun command => ?_⟩, ?_, ?_, fun hexpand => ?_, ?_⟩
  · rw [hnotebook, apply_notebook htokenized]
  · rw [hcanExpand, hnotebook, isSome_value_notebook]
  · rw [hcanExpand, hanswered]
    exact canExpand_afterCalls_iff initialDigits digitStep commands
  · obtain ⟨formula, mode, tokens, hremembered, htokens⟩ :=
      exists_of_canExpand htokenized (hcanExpand.symm.trans hexpand)
    refine ⟨formula, mode, tokens, ?_, ?_, ?_, (Token.tokenize_eq_ok_iff.mp htokens).1, htokens⟩
    · rw [hnotebook]
      exact congrArg (Option.map Prod.fst) hremembered
    · rw [hnotebook]
      exact congrArg (fun last => (Option.map Prod.snd last).getD (.text "rad")) hremembered
    · rw [hanswered, ← hremembered]
      exact (remembered_afterCalls initialDigits digitStep commands).symm
  · rw [hcanExpand, hnotebook, expand_notebook htokenized]
    exact expand_refused_iff htokenized

end PreciseCalculator

end SciCalc
