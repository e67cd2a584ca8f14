import SciCalc.Proofs.Session.Refusals
import SciCalc.Proofs.Session.Results

/-! # What is typed

While a formula is typed, its text lives in up to three places: what has been appended, the number
behind it, and the result that an evaluation has left. Every accepted text goes to the end of what
stands there, and nothing else moves it. So what is evaluated in the end is what has been typed, in
its order, behind the text of the result unless a new number was begun in its place.
-/

namespace SciCalc.Session

/-- Whether the key types a text. -/
def Key.isTyping : Key → Bool
  | .enter _ | .append _ => true
  | _ => false

/-- The text that the key types. -/
def Key.text : Key → String
  | .enter text | .append text => text
  | _ => ""

/-- Whether the key can be pressed while a formula is typed: it types a text, writes the memory, or
changes the angle mode. -/
def Key.isDuringTyping : Key → Bool
  | .enter _ | .append _ | .memoryStore | .memoryAdd | .memoryClear | .toggleAngleMode
  | .setAngleMode _ => true
  | _ => false

/-- The typing keys that are accepted when the keys are pressed in turn. -/
def typed (session : Session) (keys : List Key) : List Key :=
  ((session.history keys).filter fun step => step.1.isTyping && step.2.reply.isOk).map Prod.fst

/-- The texts of the keys, one behind the other. -/
def typedText (keys : List Key) : String := String.join (keys.map Key.text)

/-- Whether the first of the keys types a number. -/
def beginsNumber : List Key → Bool
  | .enter _ :: _ => true
  | _ => false

variable {session : Session}

/-! ## One key -/

theorem exists_fault_of_not_accepts {key : Key} (hnot : session.accepts key = false) :
    ∃ fault, (session.press key).reply = .error fault := by
  unfold accepts at hnot
  cases hreply : (session.press key).reply with
  | error fault => exact ⟨fault, rfl⟩
  | ok reply =>
      rw [hreply] at hnot
      exact absurd hnot Bool.noConfusion

theorem exists_memory_of_withMemory (session : Session)
    (action : Memory → Datum → Outcome Memory) :
    ∃ memory, (session.withMemory action).state = { session with memory := memory } := by
  obtain ⟨value, -, hmemory⟩ | ⟨fault, -, hmemory⟩ := withMemory_cases session action
  · rw [hmemory]
    exact ⟨_, rfl⟩
  · rw [hmemory]
    exact ⟨session.memory, rfl⟩

/-- A key that types nothing, or is not accepted, changes at most the angle mode and the memory. -/
theorem press_of_not_typed {key : Key} (hkey : key.isDuringTyping = true)
    (htyped : (key.isTyping && session.accepts key) = false) :
    ∃ mode memory, (session.press key).state =
      { session with
        state := { session.state with angleMode := mode }
        memory := memory } := by
  cases key with
  | enter text =>
      obtain ⟨fault, hfault⟩ := exists_fault_of_not_accepts htyped
      exact ⟨_, _, keepsIfFailed_enter session text fault hfault⟩
  | append fragment =>
      obtain ⟨fault, hfault⟩ := exists_fault_of_not_accepts htyped
      exact ⟨_, _, keepsIfFailed_append session fragment fault hfault⟩
  | memoryStore =>
      obtain ⟨memory, hstate⟩ := exists_memory_of_withMemory session Memory.store
      exact ⟨_, memory, hstate⟩
  | memoryAdd =>
      obtain ⟨memory, hstate⟩ := exists_memory_of_withMemory session Memory.add
      exact ⟨_, memory, hstate⟩
  | memoryClear => exact ⟨_, .empty, rfl⟩
  | toggleAngleMode => exact ⟨session.state.angleMode.toggle, _, rfl⟩
  | setAngleMode mode =>
      rw [press]
      obtain ⟨chosen, -, hmode⟩ | ⟨fault, -, hmode⟩ := session.state.setAngleMode_cases mode
      · rw [hmode]
        exact ⟨chosen, session.memory, rfl⟩
      · rw [hmode]
        exact ⟨session.state.angleMode, session.memory, rfl⟩
  | evaluate | evaluateValue | memoryRecall | negate | clearEntry | allClear | showAngleMode =>
      exact absurd hkey Bool.noConfusion

/-- An accepted text becomes the end of the number being typed. -/
theorem enter_of_accepted {text : String} (haccepted : session.accepts (.enter text) = true) :
    (session.press (.enter text)).state = session.withNumber (session.numberTyped ++ text) := by
  obtain ⟨-, henter⟩ | ⟨-, henter⟩ := enter_cases session text
  · rw [press, henter, Outcome.answer]
  · rw [accepts, press, henter] at haccepted
    exact absurd haccepted Bool.false_ne_true

theorem pendingFormula_enter {text : String} (haccepted : session.accepts (.enter text) = true) :
    (session.press (.enter text)).state.justEvaluated = false ∧
      (session.press (.enter text)).state.pendingFormula =
        (if session.justEvaluated then "" else session.pendingFormula) ++ text := by
  rw [enter_of_accepted haccepted]
  cases hmark : session.justEvaluated with
  | true =>
      simp [withNumber, numberTyped, startNumber, pendingFormula, hmark, State.setInputBuffer,
        State.setExpression]
  | false =>
      simp [withNumber, numberTyped, startNumber, pendingFormula, hmark, State.setInputBuffer,
        String.append_assoc]

theorem pendingFormula_append {fragment : String}
    (haccepted : session.accepts (.append fragment) = true) :
    (session.press (.append fragment)).state.justEvaluated = false ∧
      (session.press (.append fragment)).state.pendingFormula =
        session.pendingFormula ++ fragment := by
  obtain ⟨depth, hstate⟩ := append_of_accepted haccepted
  rw [hstate, pendingFormula_withFormula]
  exact ⟨rfl, rfl⟩

/-! ## Many keys -/

theorem typed_cons (key : Key) (rest : List Key) :
    session.typed (key :: rest) =
      if key.isTyping && session.accepts key then key :: (session.press key).state.typed rest
      else (session.press key).state.typed rest := by
  rw [typed, history_cons, List.filter_cons]
  exact apply_ite (List.map Prod.fst) _ _ _

/-- What is typed goes to the end of the formula, or, if a result is on display and a number is
begun, in the place of it. -/
theorem pendingFormula_after {keys : List Key}
    (hkeys : ∀ key ∈ keys, key.isDuringTyping = true) :
    (session.after keys).pendingFormula =
      (if session.justEvaluated && beginsNumber (session.typed keys) then ""
        else session.pendingFormula) ++ typedText (session.typed keys) := by
  induction keys generalizing session with
  | nil => simp [after, typed, history, outcomes, beginsNumber, typedText]
  | cons key rest ih =>
      have hrest := @ih (session.press key).state (fun other hmem => hkeys other (by simp [hmem]))
      rw [after, hrest, typed_cons]
      cases htyped : key.isTyping && session.accepts key with
      | false =>
          obtain ⟨mode, memory, hstate⟩ := press_of_not_typed (hkeys key (by simp)) htyped
          rw [hstate]
          rfl
      | true =>
          obtain ⟨htyping, haccepted⟩ := Bool.and_eq_true_iff.mp htyped
          cases key with
          | enter text =>
              obtain ⟨hmark, hformula⟩ := pendingFormula_enter haccepted
              simp [hmark, hformula, beginsNumber, typedText, Key.text, String.append_assoc]
          | append fragment =>
              obtain ⟨hmark, hformula⟩ := pendingFormula_append haccepted
              simp [hmark, hformula, beginsNumber, typedText, Key.text, String.append_assoc]
          | _ => exact absurd htyping Bool.noConfusion

/-! ## Where a formula begins -/

/-- A session in which a formula begins: with nothing entered, or with a result that the formula may
continue. -/
inductive Begins : Session → Option Double → Prop where
  | fresh : Begins initial none
  | cleared (session : Session) : Begins (session.press .allClear).state none
  | evaluated {session : Session} {given : Option String} {value : Double}
      (hyields : session.Yields given value) :
      Begins (session.press (.evaluate given)).state (some value)

/-- The text of the result is all that stands there when a formula begins. -/
theorem Begins.pendingFormula_eq {start : Session} {result : Option Double}
    (hbegins : Begins start result) :
    start.justEvaluated = result.isSome ∧
      start.pendingFormula = (result.map Double.toText).getD "" := by
  cases hbegins with
  | fresh => exact ⟨rfl, rfl⟩
  | cleared session => exact ⟨rfl, rfl⟩
  | evaluated hyields =>
      obtain ⟨-, hshows⟩ := hyields.shows
      exact ⟨hshows.marked, hshows.pendingFormula_eq⟩

/-- The formula that typed keys spell out. It continues the result, if there is one, unless the
first of the keys begins a new number. -/
def spelledOut (result : Option Double) (keys : List Key) : String :=
  (if beginsNumber keys then "" else (result.map Double.toText).getD "") ++ typedText keys

/-- Without an argument, exactly what has been typed since the formula began is evaluated: the
accepted texts in their order, behind the text of the result if they continue it. -/
theorem typed_is_evaluated {start : Session} {result : Option Double}
    (hbegins : Begins start result) {keys : List Key}
    (hkeys : ∀ key ∈ keys, key.isDuringTyping = true) :
    (start.after keys).pendingFormula = spelledOut result (start.typed keys) ∧
      (start.after keys).press (.evaluate none) =
        (start.after keys).press (.evaluate (some (spelledOut result (start.typed keys)))) := by
  have hformula : (start.after keys).pendingFormula = spelledOut result (start.typed keys) := by
    obtain ⟨hmark, hpending⟩ := hbegins.pendingFormula_eq
    rw [pendingFormula_after hkeys, hmark, hpending, spelledOut]
    cases result <;> simp
  refine ⟨hformula, ?_⟩
  simp only [press, evaluate, Option.getD_none, Option.getD_some, hformula]

/-- Behind a third, the unmatched closing parenthesis and the second point are refused, and the sum
in the memory leaves the formula alone. -/
theorem typed_is_evaluated_behind_third :
    Begins (initial.press (.evaluate (some "1/3"))).state (some (.ofFraction false 1 3)) ∧
      (initial.after [.evaluate (some "1/3"), .append ")", .append "*", .memoryAdd, .enter "2.5",
          .enter "."]).press (.evaluate none) =
        (initial.after [.evaluate (some "1/3"), .append ")", .append "*", .memoryAdd, .enter "2.5",
          .enter "."]).press (.evaluate (some "0.3333333333333333*2.5")) := by
  have hbegins : Begins (initial.press (.evaluate (some "1/3"))).state
      (some (.ofFraction false 1 3)) :=
    .evaluated ⟨by decide +kernel, by decide +kernel, by decide +kernel⟩
  have hkeys : ∀ key ∈ [Key.append ")", .append "*", .memoryAdd, .enter "2.5", .enter "."],
      key.isDuringTyping = true := by decide
  have hspelled : spelledOut (some (.ofFraction false 1 3))
      ((initial.press (.evaluate (some "1/3"))).state.typed
        [.append ")", .append "*", .memoryAdd, .enter "2.5", .enter "."]) =
      "0.3333333333333333*2.5" := by decide +kernel
  obtain ⟨-, hpress⟩ := typed_is_evaluated hbegins hkeys
  rw [hspelled] at hpress
  exact ⟨hbegins, hpress⟩

end SciCalc.Session
