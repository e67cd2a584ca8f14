import SciCalc.Proofs.Formula.Nesting
import SciCalc.Proofs.Session.Keys

/-! # What the keys do

A key that writes a text or a value checks it first and then writes all of it, so what it does is
one of two things: a whole change of the session, or a refusal that leaves it alone. The changes are
named here with all their fields, and one lemma for each key says which of the two happens. The
state refuses none of the values that a session writes into it.
-/

namespace SciCalc

namespace State

theorem resultOf?_float {x : Double} (hfinite : x.isFinite = true) :
    resultOf? (.float x) = some x := by
  simp [resultOf?, Datum.float, Number.toFinite?, Number.toDouble?, Option.filter, hfinite]

theorem setLastResult_float (state : State) {x : Double} (hfinite : x.isFinite = true) :
    state.setLastResult (.float x) = .silent { state with lastResult := some x } := by
  rw [setLastResult, resultOf?_float hfinite]

theorem setParenthesisDepth_nat (state : State) {depth : Nat}
    (hdepth : depth ≤ Settings.greatestDepth) :
    state.setParenthesisDepth (.number (.int depth)) =
      .silent { state with parenthesisDepth := depth } := by
  have hdepthOf : depthOf? (.number (.int depth)) = some depth := by
    have hbound : (depth : Int) ≤ (Settings.greatestDepth : Nat) := Int.ofNat_le.mpr hdepth
    simp only [depthOf?, Int.natCast_nonneg, hbound, decide_true, Bool.and_self, if_true,
      Int.toNat_natCast]
  rw [setParenthesisDepth, hdepthOf]

theorem setParenthesisDepth_zero (state : State) :
    state.setParenthesisDepth (.number (.int 0)) = .silent { state with parenthesisDepth := 0 } :=
  state.setParenthesisDepth_nat (Nat.zero_le _)

/-- A mode is set if the value names one. -/
theorem setAngleMode_cases (state : State) (value : Datum) :
    (∃ mode, AngleMode.ofDatum value = .ok mode ∧
      state.setAngleMode value = .silent { state with angleMode := mode }) ∨
    ∃ fault, AngleMode.ofDatum value = .error fault ∧
      state.setAngleMode value = .failed fault state := by
  unfold setAngleMode
  cases AngleMode.ofDatum value with
  | ok mode => exact .inl ⟨mode, rfl, rfl⟩
  | error fault => exact .inr ⟨fault, rfl, rfl⟩

end State

namespace Session

variable (session : Session)

/-- The number that is being typed; a result on display is none. -/
def numberTyped : String := if session.justEvaluated then "" else session.state.inputBuffer

/-- The session in which a text is the number being typed; a result on display is given up. -/
def withNumber (text : String) : Session :=
  { session.startNumber with state := session.startNumber.state.setInputBuffer text }

/-- The session that displays a value as a result, with no formula beside it. -/
def withResult (value : Double) (text : String) : Session :=
  { session with
    state := { session.state with
      inputBuffer := text
      expression := ""
      lastResult := some value
      parenthesisDepth := 0
      error := none }
    justEvaluated := true }

/-- The session that goes on with a formula, with no number behind it yet. -/
def withFormula (formula : String) (depth : Nat) : Session :=
  { session with
    state := { session.state with
      inputBuffer := ""
      expression := formula
      parenthesisDepth := depth
      error := none }
    justEvaluated := false }

theorem justEvaluated_startNumber : session.startNumber.justEvaluated = false := by
  unfold startNumber
  split
  · rfl
  next hmark => simpa using hmark

/-- A text is typed if it continues the number to one that can be typed. -/
theorem enter_cases (text : String) :
    (Display.isPartialInput (session.numberTyped ++ text) = true ∧
      session.enter text = .answer (.text (session.numberTyped ++ text))
        (session.withNumber (session.numberTyped ++ text))) ∨
    (Display.isPartialInput (session.numberTyped ++ text) = false ∧
      session.enter text =
        .failed (.calculation ⟨.invalidCharacter, "Entrada inválida: " ++ text⟩) session) := by
  change _ ∧ (if Display.isPartialInput (session.numberTyped ++ text) = true then _ else _) = _ ∨
    _ ∧ (if Display.isPartialInput (session.numberTyped ++ text) = true then _ else _) = _
  cases hpartial : Display.isPartialInput (session.numberTyped ++ text) with
  | true => exact .inl ⟨rfl, if_pos rfl⟩
  | false => exact .inr ⟨rfl, if_neg Bool.false_ne_true⟩

/-- A fragment is taken if the formula nests well with it, and the state refuses nothing of it. -/
theorem append_cases (fragment : String) :
    (∃ depth, Parentheses.depth (session.continued fragment) = .ok depth ∧
      session.append fragment = .answer (.text (session.continued fragment))
        (session.withFormula (session.continued fragment) depth)) ∨
    ((∃ violation, Parentheses.depth (session.continued fragment) = .error violation) ∧
      session.append fragment =
        .failed (.calculation (.ofKind .mismatchedParentheses)) session) := by
  cases hdepth : Parentheses.depth (session.continued fragment) with
  | ok depth =>
      refine .inl ⟨depth, rfl, ?_⟩
      have hbound := Parentheses.depth_le_of_depth hdepth
      simp only [append, hdepth, State.setParenthesisDepth_nat _ hbound]
      rfl
  | error violation =>
      refine .inr ⟨⟨violation, rfl⟩, ?_⟩
      simp only [append, hdepth]

/-- A finite result is displayed, and the state refuses nothing of it. -/
theorem showResult_eq {x : Double} (hfinite : x.isFinite = true) (text : String) :
    session.showResult x text = (session.withResult x text, []) := by
  simp only [showResult, State.setLastResult_float _ hfinite, Outcome.silent,
    State.setParenthesisDepth_zero]
  rfl

/-- A memory key does to the memory what its action does with the current value, if there is one. -/
theorem withMemory_cases (action : Memory → Datum → Outcome Memory) :
    (∃ value, session.currentValue = .ok value ∧
      session.withMemory action = session.onMemory (action session.memory value)) ∨
    ∃ fault, session.currentValue = .error fault ∧
      session.withMemory action = .failed fault session := by
  unfold withMemory
  cases session.currentValue with
  | ok value => exact .inl ⟨value, rfl, rfl⟩
  | error fault => exact .inr ⟨fault, rfl, rfl⟩

/-- The number in the memory is put on display as a typed number. -/
theorem showMemory_cases :
    (∃ text, Display.formatDouble session.memory.value = .ok text ∧
      session.showMemory = .answer (.text text) (session.withNumber text)) ∨
    ∃ fault, Display.formatDouble session.memory.value = .error fault ∧
      session.showMemory = .failed fault session := by
  unfold showMemory
  cases Display.formatDouble session.memory.value with
  | ok text => exact .inl ⟨text, rfl, rfl⟩
  | error fault => exact .inr ⟨fault, rfl, rfl⟩

/-- An evaluation displays a finite result; otherwise it takes the mark away, and changes nothing
else but the error. -/
theorem evaluate_cases (given : Option String) :
    (∃ x text, x.isFinite = true ∧ Display.formatDouble x = .ok text ∧
      (session.evaluate given).state = session.withResult x text) ∨
    ∃ error, (session.evaluate given).state =
      { session with state := { session.state with error := error }, justEvaluated := false } := by
  simp only [evaluate]
  split
  next error _ => exact .inr ⟨some error.message, rfl⟩
  next => exact .inr ⟨session.state.error, rfl⟩
  next x _ =>
    split
    next => exact .inr ⟨session.state.error, rfl⟩
    next text htext =>
      split
      next hfinite =>
        rw [showResult_eq session hfinite]
        exact .inl ⟨x, text, hfinite, htext, rfl⟩
      · exact .inr ⟨some _, rfl⟩

/-- An evaluation answers with the display text of the value. -/
theorem evaluate_reply (formula : String) :
    (session.evaluate (some formula)).reply =
      session.evaluateValue formula >>= fun x => .text <$> Display.formatDouble x := by
  simp only [evaluate, Option.getD_some]
  cases session.evaluateValue formula with
  | error fault => cases fault <;> rfl
  | ok value =>
      simp only [bind_ok]
      cases Display.formatDouble value with
      | error fault => rfl
      | ok text =>
          simp only
          split <;> rfl

end Session

end SciCalc
