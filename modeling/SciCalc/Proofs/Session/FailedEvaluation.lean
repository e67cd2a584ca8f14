import SciCalc.Proofs.Outcome
import SciCalc.Proofs.Session.Keys

/-! # After a failed evaluation

No key looks at the error that a session keeps. So two sessions that differ in it alone answer
every sequence of keys alike. An evaluation that fails leaves just such a session, but for the mark
that stands right after a successful evaluation: it takes the mark away, and so the result that was
on display counts as a typed number from then on.
-/

namespace SciCalc

namespace Session

/-- The session with the error replaced. -/
def withError (session : Session) (message : Option String) : Session :=
  { session with state := session.state.setError message }

end Session

/-- The outcome as far as it does not show the error. -/
def Outcome.forgetError (outcome : Outcome Session) : Outcome Session :=
  { outcome with state := outcome.state.withError none }

namespace Session

open Outcome

variable (session : Session) (message : Option String)

/-! ## Keys do not look at the error -/

theorem startNumber_withError :
    (session.withError message).startNumber = session.startNumber.withError message := by
  have hmark : (session.withError message).justEvaluated = session.justEvaluated := rfl
  unfold startNumber
  rw [hmark]
  split <;> rfl

/-- What is typed so far, as the error does not change it. -/
theorem typed_withError :
    (if (session.withError message).justEvaluated then ""
      else (session.withError message).state.inputBuffer) =
      if session.justEvaluated then "" else session.state.inputBuffer := rfl

theorem enter_withError (text : String) :
    ((session.withError message).enter text).forgetError = (session.enter text).forgetError := by
  simp only [enter, startNumber_withError, typed_withError]
  generalize (if session.justEvaluated then "" else session.state.inputBuffer) ++ text = typed
  split <;> rfl

theorem append_withError (fragment : String) :
    ((session.withError message).append fragment).forgetError =
      (session.append fragment).forgetError := by
  have hformula : (session.withError message).continued fragment = session.continued fragment := rfl
  simp only [append, hformula]
  split <;> rfl

theorem setLastResult_withError (value : Datum) :
    (session.withError message).state.setLastResult value =
      { session.state.setLastResult value with
        state := (session.state.setLastResult value).state.setError message } := by
  unfold State.setLastResult
  split <;> rfl

theorem showResult_withError (value : Double) (text : String) :
    (session.withError message).showResult value text = session.showResult value text := by
  simp only [showResult, setLastResult_withError]
  rfl

theorem evaluate_withError (given : Option String) :
    ((session.withError message).evaluate given).forgetError =
      (session.evaluate given).forgetError := by
  have hformula : (session.withError message).pendingFormula = session.pendingFormula := rfl
  have hvalue : ∀ formula,
      (session.withError message).evaluateValue formula = session.evaluateValue formula :=
    fun _ => rfl
  simp only [evaluate, hformula, hvalue, showResult_withError]
  split
  · rfl
  · rfl
  split
  · rfl
  split <;> rfl

theorem withMemory_withError (action : Memory → Datum → Outcome Memory) :
    ((session.withError message).withMemory action).forgetError =
      (session.withMemory action).forgetError := by
  have hvalue : (session.withError message).currentValue = session.currentValue := rfl
  simp only [withMemory, hvalue]
  split <;> rfl

theorem showMemory_withError :
    (session.withError message).showMemory.forgetError = session.showMemory.forgetError := by
  have hmemory : (session.withError message).memory = session.memory := rfl
  simp only [showMemory, startNumber_withError, hmemory]
  split <;> rfl

theorem negateTyped_withError (typed : String) :
    ((session.withError message).negateTyped typed).forgetError =
      (session.negateTyped typed).forgetError := by
  simp only [negateTyped]
  split
  · rfl
  split
  · rfl
  split <;> rfl

theorem negateResult_withError (value : Double) :
    ((session.withError message).negateResult value).forgetError =
      (session.negateResult value).forgetError := by
  simp only [negateResult, setLastResult_withError]
  split <;> rfl

theorem negate_withError :
    (session.withError message).negate.forgetError = session.negate.forgetError := by
  have hresult : (session.withError message).state.lastResult = session.state.lastResult := rfl
  simp only [negate, typed_withError, hresult]
  generalize (if session.justEvaluated then "" else session.state.inputBuffer) = typed
  split
  · exact negateTyped_withError session message _
  split
  · exact negateResult_withError session message _
  · rfl

/-- What a key does does not depend on the error. -/
theorem press_withError (key : Key) :
    ((session.withError message).press key).forgetError = (session.press key).forgetError := by
  cases key with
  | enter text => exact enter_withError session message text
  | append fragment => exact append_withError session message fragment
  | evaluate formula => exact evaluate_withError session message formula
  | memoryStore => exact withMemory_withError session message Memory.store
  | memoryAdd => exact withMemory_withError session message Memory.add
  | memoryRecall => exact showMemory_withError session message
  | negate => exact negate_withError session message
  | setAngleMode mode =>
      simp only [press, onState, State.setAngleMode]
      split <;> rfl
  | evaluateValue formula | memoryClear | clearEntry | allClear | toggleAngleMode
  | showAngleMode => rfl

/-- The sessions differ in the error alone, if at all. -/
def Alike (first second : Session) : Prop := first.withError none = second.withError none

namespace Alike

variable {first second : Session}

/-- Sessions that differ in the error alone do the same with a key. -/
theorem press_eq (halike : Alike first second) (key : Key) :
    (first.press key).forgetError = (second.press key).forgetError :=
  calc (first.press key).forgetError
      = ((first.withError none).press key).forgetError := (press_withError first none key).symm
    _ = ((second.withError none).press key).forgetError := by rw [halike]
    _ = (second.press key).forgetError := press_withError second none key

theorem press (halike : Alike first second) (key : Key) :
    Alike (first.press key).state (second.press key).state :=
  congrArg Outcome.state (halike.press_eq key)

theorem after (halike : Alike first second) (keys : List Key) :
    Alike (first.after keys) (second.after keys) := by
  induction keys generalizing first second with
  | nil => exact halike
  | cons key rest ih => exact ih (halike.press key)

theorem outcomes_eq (halike : Alike first second) (keys : List Key) :
    (first.outcomes keys).map forgetError = (second.outcomes keys).map forgetError := by
  induction keys generalizing first second with
  | nil => rfl
  | cons key rest ih =>
      simp only [outcomes, List.map_cons, halike.press_eq key, ih (halike.press key)]

end Alike

/-! ## What a failed evaluation takes away -/

/-- The evaluation reports an error of a calculation, or its value is not finite. -/
def Fails (formula : String) : Prop :=
  (∃ error, (session.press (.evaluate (some formula))).reply = .error (.calculation error)) ∨
    ∃ value, session.evaluateValue formula = .ok value ∧ value.isFinite = false

variable {session}

/-- Apart from the error such an evaluation only takes the mark away. -/
theorem Fails.alike {formula : String} (hfails : session.Fails formula) :
    Alike (session.press (.evaluate (some formula))).state
      { session with justEvaluated := false } := by
  simp only [Fails, press, evaluate, Option.getD_some] at hfails ⊢
  split
  · rfl
  · rfl
  next value hvalue =>
    split
    · rfl
    next text htext =>
      have hinfinite : value.isFinite = false := by
        rcases hfails with ⟨error, hreply⟩ | ⟨other, hother, hinfinite⟩
        · simp only [hvalue, htext] at hreply
          split at hreply <;> exact nomatch hreply
        · obtain rfl : value = other := Except.ok.inj (hvalue.symm.trans hother)
          exact hinfinite
      simp only [hinfinite, Bool.false_eq_true, if_false]
      rfl

/-- After an evaluation that fails every key is answered as if the mark of a successful evaluation
had been taken away instead, which changes nothing if it did not stand. -/
theorem failed_evaluation_takes_mark {formula : String} (hfails : session.Fails formula)
    (keys : List Key) :
    ((session.press (.evaluate (some formula))).state.outcomes keys).map forgetError =
        (({ session with justEvaluated := false } : Session).outcomes keys).map forgetError ∧
      Alike ((session.press (.evaluate (some formula))).state.after keys)
        (({ session with justEvaluated := false } : Session).after keys) :=
  ⟨hfails.alike.outcomes_eq keys, hfails.alike.after keys⟩

/-- After a division by zero the result four is a typed number, to which a digit is added. -/
theorem failed_evaluation_takes_mark_of_four :
    (initial.after [.evaluate (some "2+2")]).Fails "1/0" ∧
      ((initial.after [.evaluate (some "2+2"), .evaluate (some "1/0")]).outcomes
          [.enter "5", .evaluate none]).map forgetError =
        (({ initial.after [.evaluate (some "2+2")] with justEvaluated := false } :
          Session).outcomes [.enter "5", .evaluate none]).map forgetError := by
  have hfails : (initial.after [.evaluate (some "2+2")]).Fails "1/0" :=
    .inl ⟨.divisionByZero, by decide +kernel⟩
  exact ⟨hfails, (failed_evaluation_takes_mark hfails [.enter "5", .evaluate none]).1⟩

/-- After a result on display a digit begins a new number, unless an evaluation has failed
meanwhile: then the digit is typed behind the result. -/
theorem failed_evaluation_disturbs :
    ∃ earlier formula later, (initial.after earlier).Fails formula ∧
      (((initial.after earlier).press (.evaluate (some formula))).state.outcomes later).map
          (fun outcome => outcome.reply) ≠
        ((initial.after earlier).outcomes later).map (fun outcome => outcome.reply) := by
  refine ⟨[.evaluate (some "2+2")], "1/0", [.enter "5"],
    .inl ⟨.divisionByZero, by decide +kernel⟩, ?_⟩
  decide +kernel

end Session

end SciCalc
