import SciCalc.Proofs.Display.Totality
import SciCalc.Proofs.Formula.SingleNumber
import SciCalc.Proofs.Session.TypingInParts

/-! # Two readers of a typed number

A typed number is read in two ways: an evaluation takes it apart into tokens and reads the numeral
among them, with its sign, and the memory keys read the text as a whole. They agree on every number
that can be typed, whatever zeros it has in front and whether or not there are digits on both sides
of the point. A number beyond the range is refused by both.
-/

namespace SciCalc.Session

/-- Nothing has been typed since the session began, or since a result was displayed. -/
structure HasNothingTyped (session : Session) : Prop where
  number : session.numberTyped = ""
  expression : session.startNumber.state.expression = ""

theorem hasNothingTyped_initial : initial.HasNothingTyped := ⟨rfl, rfl⟩

variable {session : Session}

/-! ## The number being typed -/

/-- With nothing typed before it, a typed number is all that is evaluated. -/
theorem HasNothingTyped.pendingFormula_withNumber (hsession : session.HasNothingTyped)
    (text : String) : (session.withNumber text).pendingFormula = text := by
  simp [pendingFormula, withNumber, justEvaluated_startNumber, State.setInputBuffer,
    hsession.expression]

theorem lastResult_withNumber (session : Session) (text : String) :
    (session.withNumber text).state.lastResult = session.state.lastResult := by
  unfold withNumber startNumber
  split <;> rfl

theorem memory_withNumber (session : Session) (text : String) :
    (session.withNumber text).memory = session.memory := by
  unfold withNumber startNumber
  split <;> rfl

/-- With nothing typed before it, a text that can be typed becomes the number being typed. -/
theorem HasNothingTyped.enter (hsession : session.HasNothingTyped) {text : String}
    (hpartial : Display.isPartialInput text = true) :
    session.accepts (.enter text) = true ∧
      (session.press (.enter text)).state = session.withNumber text := by
  have htext : session.numberTyped ++ text = text := by
    rw [hsession.number, String.empty_append]
  have haccepted : session.accepts (.enter text) = true := by
    rwa [accepts_enter_iff, htext]
  exact ⟨haccepted, by rw [enter_of_accepted haccepted, htext]⟩

/-! ## The two readers -/

/-- A number that can be typed denotes a double, and the tokens of its text are this double alone,
unless it is beyond the range. -/
theorem tokenize_of_isPartialInput {text : String} (hpartial : Display.isPartialInput text = true)
    (hdigit : text.toList.any Char.isDigit = true) :
    ∃ x, Double.ofText? text = some x ∧
      ((x.isFinite = true ∧ Token.tokenize text = .ok [.number x (some text)]) ∨
        (x.isInfinite = true ∧ x.isFinite = false ∧ Token.tokenize text =
          failWith .invalidExpression ("Número fuera de rango: " ++ text))) := by
  obtain ⟨negative, spelled, rfl⟩ := Display.exists_spelled_of_isPartialInput hpartial hdigit
  refine ⟨spelled.nearest negative, spelled.doubleOfText?_eq negative, ?_⟩
  rw [Token.tokenize_spelled]
  cases hfinite : (spelled.nearest negative).isFinite with
  | true => exact .inl ⟨rfl, rfl⟩
  | false =>
      refine .inr ⟨?_, rfl, rfl⟩
      rw [spelled.isInfinite_nearest, ← spelled.isFinite_nearest negative, hfinite]
      rfl

section Evaluation

variable {text : String} (hsession : session.HasNothingTyped)

include hsession

/-- Within the range, an evaluation displays the double of the number and keeps it. -/
theorem evaluate_number {x : Double} (htokens : Token.tokenize text = .ok [.number x (some text)])
    (hread : Double.ofText? text = some x) (hfinite : x.isFinite = true) :
    ∃ shown, Display.formatDouble x = .ok shown ∧
      ((session.withNumber text).press (.evaluate none)).reply = .ok (.text shown) ∧
      ((session.withNumber text).press (.evaluate none)).state.state.lastResult = some x := by
  obtain ⟨shown, hshown⟩ := Display.exists_formatDouble x
  have hvalue : (session.withNumber text).evaluateValue
      ((none : Option String).getD (session.withNumber text).pendingFormula) = .ok x := by
    rw [Option.getD_none, hsession.pendingFormula_withNumber]
    exact Formula.evaluate_of_number _ htokens hread
  obtain ⟨hreply, hstate⟩ := evaluate_of_value hvalue hfinite hshown
  exact ⟨shown, hshown, hreply, by rw [hstate]; rfl⟩

/-- A number that is refused is refused by an evaluation, and neither the last result nor the memory
changes. -/
theorem evaluate_refused_number {error : CalcError}
    (htokens : Token.tokenize text = .error (.calculation error)) :
    ((session.withNumber text).press (.evaluate none)).reply = .error (.calculation error) ∧
      ((session.withNumber text).press (.evaluate none)).state.state.lastResult =
        session.state.lastResult ∧
      ((session.withNumber text).press (.evaluate none)).state.memory = session.memory := by
  have hvalue : (session.withNumber text).evaluateValue
      ((none : Option String).getD (session.withNumber text).pendingFormula) =
        .error (.calculation error) := by
    rw [Option.getD_none, hsession.pendingFormula_withNumber, evaluateValue, Formula.evaluate,
      htokens, bind_error]
  simp only [press, evaluate, hvalue]
  exact ⟨trivial, lastResult_withNumber session text, memory_withNumber session text⟩

end Evaluation

section MemoryStore

variable {text : String} {x : Double} (hread : Double.ofText? text = some x) (htext : text ≠ "")

include hread htext

theorem currentValue_withNumber : (session.withNumber text).currentValue = .ok (.float x) := by
  have hempty : text.isEmpty = false := by simpa using htext
  simp [currentValue, withNumber, justEvaluated_startNumber, State.setInputBuffer, hempty, hread]

/-- A finite number is stored as the double that its text is read as. -/
theorem memoryStore_number (hfinite : x.isFinite = true) :
    (session.withNumber text).press .memoryStore =
      .silent { session.withNumber text with memory := ⟨x⟩ } := by
  simp only [press, withMemory, currentValue_withNumber hread htext, Memory.store,
    State.resultOf?_float hfinite]
  rfl

/-- A number beyond the range is not stored, and nothing changes. -/
theorem memoryStore_refused_number (hfinite : x.isFinite = false) :
    (session.withNumber text).press .memoryStore =
      .failed (.calculation (.ofKind .invalidValue)) (session.withNumber text) := by
  have hnone : State.resultOf? (.float x) = none := by
    simp [State.resultOf?, Datum.float, Number.toFinite?, Number.toDouble?, Option.filter, hfinite]
  simp only [press, withMemory, currentValue_withNumber hread htext, Memory.store, hnone]
  rfl

end MemoryStore

/-- A text that can be typed and has a digit denotes a double, and a session that has nothing typed
takes it. If the double is finite, it is the one token of the text, the last result when the text is
evaluated, and what the memory stores. If it is infinite, both keys refuse it, and neither the last
result nor the memory changes. -/
theorem typed_number_read_alike (hsession : session.HasNothingTyped) {text : String}
    (hpartial : Display.isPartialInput text = true)
    (hdigit : text.toList.any Char.isDigit = true) :
    let typed := (session.press (.enter text)).state
    let evaluated := typed.press (.evaluate none)
    let stored := typed.press .memoryStore
    session.accepts (.enter text) = true ∧
    ∃ x, Double.ofText? text = some x ∧
      ((x.isFinite = true ∧
          Token.tokenize text = .ok [.number x (some text)] ∧
          (∃ shown, Display.formatDouble x = .ok shown ∧ evaluated.reply = .ok (.text shown)) ∧
          evaluated.state.state.lastResult = some x ∧
          stored.reply = .ok .nothing ∧
          stored.state.memory.value = x) ∨
        (x.isInfinite = true ∧
          evaluated.reply =
            failWith .invalidExpression ("Número fuera de rango: " ++ text) ∧
          evaluated.state.state.lastResult = session.state.lastResult ∧
          evaluated.state.memory = session.memory ∧
          stored.reply = fail .invalidValue ∧
          stored.state.state.lastResult = session.state.lastResult ∧
          stored.state.memory = session.memory)) := by
  intro typed evaluated stored
  obtain ⟨haccepted, htyped⟩ := hsession.enter hpartial
  have htext : text ≠ "" := by
    rintro rfl
    exact absurd hdigit (by decide)
  obtain ⟨x, hread, hcases⟩ := tokenize_of_isPartialInput hpartial hdigit
  have hevaluated : evaluated = (session.withNumber text).press (.evaluate none) := htyped ▸ rfl
  have hstored : stored = (session.withNumber text).press .memoryStore := htyped ▸ rfl
  rw [hevaluated, hstored]
  refine ⟨haccepted, x, hread, ?_⟩
  rcases hcases with ⟨hfinite, htokens⟩ | ⟨hinfinite, hfinite, htokens⟩
  · obtain ⟨shown, hshown, hreply, hlast⟩ := evaluate_number hsession htokens hread hfinite
    rw [memoryStore_number hread htext hfinite]
    exact .inl ⟨hfinite, htokens, ⟨shown, hshown, hreply⟩, hlast, rfl, rfl⟩
  · obtain ⟨hreply, hlast, hmemory⟩ := evaluate_refused_number hsession htokens
    rw [memoryStore_refused_number hread htext hfinite]
    exact .inr ⟨hinfinite, hreply, hlast, hmemory, rfl, lastResult_withNumber session text,
      memory_withNumber session text⟩

/-- A minus and a point in front of the only digit are read alike, and four hundred nines are
refused by both. -/
theorem typed_number_read_alike_at_ends :
    Display.isPartialInput "-.5" = true ∧
      ((initial.press (.enter "-.5")).state.press (.evaluate none)).state.state.lastResult =
        some (.ofFraction true 1 2) ∧
      ((initial.press (.enter "-.5")).state.press .memoryStore).state.memory.value =
        .ofFraction true 1 2 ∧
    Display.isPartialInput (String.ofList (List.replicate 400 '9')) = true ∧
      ((initial.press (.enter (String.ofList (List.replicate 400 '9')))).state.press
        .memoryStore).reply = fail .invalidValue := by
  let nines : Spelled := ⟨List.replicate 400 '9', none, none,
    fun _ hmem => List.eq_of_mem_replicate hmem ▸ rfl, by simp, .inl (List.cons_ne_nil _ _)⟩
  have hchars : nines.chars = List.replicate 400 '9' :=
    (congrArg (_ ++ ·) (List.append_nil [])).trans (List.append_nil _)
  have hhalf : Display.isPartialInput "-.5" = true := by decide
  have hnines : Display.isPartialInput (String.ofList (List.replicate 400 '9')) = true := by
    have hdigits := Display.isPartialInput_of_digits false none nines.isDigit_of_mem_whole (by simp)
    rwa [pointed, List.append_nil] at hdigits
  obtain ⟨-, x, hread, hcases⟩ :=
    typed_number_read_alike hasNothingTyped_initial hhalf (by decide)
  obtain ⟨-, y, hbeyond, hcases'⟩ :=
    typed_number_read_alike hasNothingTyped_initial hnines (by rw [String.toList_ofList]; decide)
  have hhalfRead : Double.ofText? "-.5" = some (.ofFraction true 1 2) := by decide +kernel
  have hninesRead := nines.doubleOfText?_eq false
  have hinfinite : nines.nearest false = .inf false := by decide +kernel
  rw [hchars, hinfinite] at hninesRead
  obtain rfl := Option.some.inj (hread.symm.trans hhalfRead)
  obtain rfl := Option.some.inj (hbeyond.symm.trans hninesRead)
  rcases hcases with ⟨-, -, -, hlast, -, hstored⟩ | ⟨hhalfInfinite, -⟩
  · rcases hcases' with ⟨hninesFinite, -⟩ | ⟨-, -, -, -, hrefused, -⟩
    · exact absurd hninesFinite (by decide)
    · exact ⟨hhalf, hlast, hstored, hnines, hrefused⟩
  · exact absurd hhalfInfinite (by decide +kernel)

end SciCalc.Session
