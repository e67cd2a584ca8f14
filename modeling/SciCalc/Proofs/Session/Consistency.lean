import SciCalc.Proofs.Display.Negation
import SciCalc.Proofs.Session.Steps
import SciCalc.Proofs.Session.WrittenValues

/-! # Consistent sessions

Whatever keys are pressed, the fields of a session fit together. The depth is what the formula
leaves open, the results and the memory are finite, the number being typed can be typed or has been
displayed, and right after an evaluation the display shows the last result with no formula beside
it. The parts need each other: a key that continues from the result may forget the formula only
because there is none.

So no key ever writes a value that the state rejects. A rejection would be reported by the state,
and no record of the state appears.
-/

namespace SciCalc

namespace State

theorem isFinite_of_resultOf? {value : Datum} {x : Double} (hresult : resultOf? value = some x) :
    x.isFinite = true := by
  unfold resultOf? at hresult
  split at hresult
  · exact (Option.filter_eq_some_iff.mp hresult).2
  · exact nomatch hresult

/-- A rejected value is reported by the state, if it has a text. -/
theorem rejection_reported (state : State) {value : Datum} (htext : value.HasText) :
    (resultOf? value = none →
      ∃ record ∈ (state.setLastResult value).records, record.source = Component.state.name) ∧
    (depthOf? value = none →
      ∃ record ∈ (state.setParenthesisDepth value).records,
        record.source = Component.state.name) := by
  refine ⟨fun hnone => ?_, fun hnone => ?_⟩
  · rw [setLastResult, hnone]
    exact Record.exists_mem_about (fun _ => rfl) htext
  · rw [setParenthesisDepth, hnone]
    exact Record.exists_mem_about (fun _ => rfl) htext

end State

namespace Memory

theorem isFinite_store {memory : Memory} (hfinite : memory.value.isFinite = true)
    (value : Datum) : (memory.store value).state.value.isFinite = true := by
  unfold store
  split
  next x hresult => exact State.isFinite_of_resultOf? hresult
  · exact hfinite

theorem isFinite_add {memory : Memory} (hfinite : memory.value.isFinite = true)
    (value : Datum) : (memory.add value).state.value.isFinite = true := by
  unfold add
  split
  · exact hfinite
  · simp only
    split
    · assumption
    · exact hfinite

theorem source_of_mem_store {memory : Memory} {value : Datum} {record : Record}
    (hrecord : record ∈ (memory.store value).records) : record.source = Component.memory.name := by
  unfold store at hrecord
  split at hrecord <;> exact nomatch hrecord

theorem source_of_mem_add {memory : Memory} {value : Datum} {record : Record}
    (hrecord : record ∈ (memory.add value).records) : record.source = Component.memory.name := by
  unfold add at hrecord
  split at hrecord
  · exact nomatch hrecord
  · simp only at hrecord
    split at hrecord
    · exact nomatch hrecord
    · exact Record.source_of_mem_about (fun _ => rfl) hrecord

end Memory

namespace Session

open Parentheses

/-- The texts that the number being typed can be: what can be typed, and what is displayed. -/
def IsShown (text : String) : Prop :=
  Display.isPartialInput text = true ∨ ∃ x, Display.formatDouble x = .ok text

/-- The fields of the session fit together. -/
structure Consistent (session : Session) : Prop where
  /-- The depth is the number of parentheses that the formula opens and does not close. -/
  depth_eq : session.state.expression.toList.count '(' =
    session.state.parenthesisDepth + session.state.expression.toList.count ')'
  /-- No prefix of the formula closes more than it opens or is nested too deep. -/
  staysInside : StaysInside 0 session.state.expression.toList
  lastResult_finite : ∀ x ∈ session.state.lastResult, x.isFinite = true
  memory_finite : session.memory.value.isFinite = true
  shown : IsShown session.state.inputBuffer
  /-- Right after an evaluation the last result is on display, with no formula beside it. -/
  marked : session.justEvaluated = true →
    session.state.expression = "" ∧ session.state.parenthesisDepth = 0 ∧
      ∃ x, session.state.lastResult = some x ∧
        Display.formatDouble x = .ok session.state.inputBuffer

/-- The outcome leaves a consistent session, and the state has rejected nothing. -/
structure Sound (outcome : Outcome Session) : Prop where
  consistent : Consistent outcome.state
  accepted : ∀ record ∈ outcome.records, record.source ≠ Component.state.name

theorem isShown_empty : IsShown "" := .inl (by decide)

theorem isShown_minus : IsShown "-" := .inl (by decide)

theorem isShown_of_format {x : Double} {text : String} (htext : Display.formatDouble x = .ok text) :
    IsShown text := .inr ⟨x, htext⟩

theorem consistent_initial : Consistent initial where
  depth_eq := rfl
  staysInside := (depth_eq_ok_iff.mp (rfl : Parentheses.depth "" = .ok 0)).1
  lastResult_finite := by simp [initial, State.initial]
  memory_finite := rfl
  shown := isShown_empty
  marked := by simp [initial]

namespace Consistent

variable {session : Session}

theorem depth_formula (hsession : Consistent session) :
    Parentheses.depth session.state.expression = .ok session.state.parenthesisDepth :=
  depth_eq_ok_iff.mpr ⟨hsession.staysInside, hsession.depth_eq⟩

/-! ## What keys write -/

theorem unmark (hsession : Consistent session) :
    Consistent { session with justEvaluated := false } :=
  { hsession with marked := nofun }

theorem setError (hsession : Consistent session) (message : Option String) :
    Consistent { session with state := session.state.setError message } :=
  { hsession with }

theorem setMemory (hsession : Consistent session) {memory : Memory}
    (hfinite : memory.value.isFinite = true) : Consistent { session with memory := memory } :=
  { hsession with memory_finite := hfinite }

theorem setAngleMode (hsession : Consistent session) (mode : AngleMode) :
    Consistent { session with state := { session.state with angleMode := mode } } :=
  { hsession with }

theorem setInputBuffer (hsession : Consistent session) (hmark : session.justEvaluated = false)
    {text : String} (hshown : IsShown text) :
    Consistent { session with state := session.state.setInputBuffer text } :=
  { hsession with shown := hshown, marked := fun hmarked => absurd hmarked (by simp [hmark]) }

theorem setLastResult (hsession : Consistent session) (hmark : session.justEvaluated = false)
    {x : Double} (hfinite : x.isFinite = true) :
    Consistent { session with state := { session.state with lastResult := some x } } :=
  { hsession with
    lastResult_finite := by simpa using hfinite
    marked := fun hmarked => absurd hmarked (by simp [hmark]) }

theorem setFormula (hsession : Consistent session) {formula : String} {depth : Nat}
    (hdepth : Parentheses.depth formula = .ok depth) :
    Consistent (session.withFormula formula depth) :=
  { hsession with
    depth_eq := (depth_eq_ok_iff.mp hdepth).2
    staysInside := (depth_eq_ok_iff.mp hdepth).1
    shown := isShown_empty
    marked := nofun }

theorem setResult (hsession : Consistent session) {x : Double} (hfinite : x.isFinite = true)
    {text : String} (htext : Display.formatDouble x = .ok text) :
    Consistent (session.withResult x text) where
  depth_eq := rfl
  staysInside := consistent_initial.staysInside
  lastResult_finite := by simpa [withResult] using hfinite
  memory_finite := hsession.memory_finite
  shown := isShown_of_format htext
  marked := fun _ => ⟨rfl, rfl, x, rfl, htext⟩

/-- Another result in the place of the last one, on display. -/
theorem replaceResult (hsession : Consistent session) {x : Double} (hfinite : x.isFinite = true)
    {text : String} (htext : Display.formatDouble x = .ok text) :
    Consistent
      { session with
        state := { session.state with lastResult := some x, inputBuffer := text, error := none } } :=
  { hsession with
    lastResult_finite := by simpa using hfinite
    shown := isShown_of_format htext
    marked := fun hmarked =>
      ⟨(hsession.marked hmarked).1, (hsession.marked hmarked).2.1, x, rfl, htext⟩ }

theorem startNumber (hsession : Consistent session) : Consistent session.startNumber := by
  unfold Session.startNumber
  split
  next hmarked =>
    -- Right after an evaluation there is no formula, so none is lost.
    obtain ⟨hexpression, hdepth, -⟩ := hsession.marked hmarked
    refine { hsession with depth_eq := ?_, staysInside := ?_, marked := nofun }
    · simp [State.setExpression, hdepth]
    · exact consistent_initial.staysInside
  · exact hsession

theorem setNumber (hsession : Consistent session) {text : String} (hshown : IsShown text) :
    Consistent (session.withNumber text) :=
  hsession.startNumber.setInputBuffer (justEvaluated_startNumber session) hshown

end Consistent

/-! ## What keys do -/

namespace Sound

variable {session : Session}

/-- An outcome without records is sound if the session is consistent. -/
theorem of_no_records {reply : Except Fault Datum} (hsession : Consistent session) :
    Sound ⟨reply, session, []⟩ := ⟨hsession, List.forall_mem_nil _⟩

theorem enter (hsession : Consistent session) (text : String) : Sound (session.enter text) := by
  obtain ⟨hpartial, henter⟩ | ⟨-, henter⟩ := enter_cases session text
  · rw [henter]
    exact of_no_records (hsession.setNumber (.inl hpartial))
  · rw [henter]
    exact of_no_records hsession

theorem append (hsession : Consistent session) (fragment : String) :
    Sound (session.append fragment) := by
  obtain ⟨depth, hdepth, happend⟩ | ⟨-, happend⟩ := append_cases session fragment
  · rw [happend]
    exact of_no_records (hsession.setFormula hdepth)
  · rw [happend]
    exact of_no_records hsession

theorem evaluate (hsession : Consistent session) (given : Option String) :
    Sound (session.evaluate given) := by
  simp only [Session.evaluate]
  split
  next error _ =>
    exact ⟨(hsession.setError _).unmark, by simp [Record.debug, Record.warning, Component.name]⟩
  next fault _ _ =>
    exact ⟨hsession.unmark, by simp [Record.debug, Component.name]⟩
  next value _ =>
    split
    next fault _ => exact ⟨hsession.unmark, by simp [Record.debug, Component.name]⟩
    next text htext =>
      split
      next hfinite =>
        rw [showResult_eq session hfinite]
        exact ⟨hsession.setResult hfinite htext, by simp [Record.debug, Component.name]⟩
      · exact ⟨(hsession.setError _).unmark,
          by simp [Record.debug, Record.warning, Component.name]⟩

theorem withMemory (hsession : Consistent session) {action : Memory → Datum → Outcome Memory}
    (hfinite : ∀ value, (action session.memory value).state.value.isFinite = true)
    (hsource : ∀ value, ∀ record ∈ (action session.memory value).records,
      record.source = Component.memory.name) :
    Sound (session.withMemory action) := by
  obtain ⟨value, -, hmemory⟩ | ⟨fault, -, hmemory⟩ := withMemory_cases session action
  · rw [hmemory]
    refine ⟨hsession.setMemory (hfinite value), fun record hrecord => ?_⟩
    rw [hsource value record hrecord]
    decide
  · rw [hmemory]
    exact of_no_records hsession

theorem showMemory (hsession : Consistent session) : Sound session.showMemory := by
  obtain ⟨text, htext, hshow⟩ | ⟨fault, -, hshow⟩ := showMemory_cases session
  · rw [hshow]
    exact of_no_records (hsession.setNumber (isShown_of_format htext))
  · rw [hshow]
    exact of_no_records hsession

theorem display (hsession : Consistent session) (hmark : session.justEvaluated = false)
    {text : String} (hshown : IsShown text) : Sound (session.display text) :=
  of_no_records (hsession.setInputBuffer hmark hshown)

theorem negateTyped (hsession : Consistent session) (hmark : session.justEvaluated = false)
    (typed : String) : Sound (session.negateTyped typed) := by
  unfold Session.negateTyped
  split
  · exact of_no_records hsession
  split
  · exact of_no_records hsession
  split
  · exact of_no_records hsession
  next text htext => exact display hsession hmark (isShown_of_format htext)

theorem negateResult (hsession : Consistent session) {value : Double}
    (hvalue : session.state.lastResult = some value) : Sound (session.negateResult value) := by
  have hfinite : value.neg.isFinite = true := by
    rw [Double.isFinite_neg]
    exact hsession.lastResult_finite value hvalue
  simp only [Session.negateResult, State.setLastResult_float _ hfinite, Outcome.silent]
  split
  next fault hfault =>
    -- A displayed result has an opposite that can be displayed, so none is on display here.
    have hmark : session.justEvaluated = false := by
      rw [← Bool.not_eq_true]
      intro hmarked
      obtain ⟨-, -, x, hx, htext⟩ := hsession.marked hmarked
      obtain rfl : value = x := Option.some.inj (hvalue.symm.trans hx)
      obtain ⟨text, hother⟩ := Display.exists_formatDouble_neg htext
      cases hfault.symm.trans hother
    exact of_no_records (hsession.setLastResult hmark hfinite)
  next text htext => exact of_no_records (hsession.replaceResult hfinite htext)

theorem negate (hsession : Consistent session) : Sound session.negate := by
  simp only [Session.negate]
  cases hmark : session.justEvaluated with
  | true =>
      obtain ⟨-, -, x, hx, -⟩ := hsession.marked hmark
      simp only [hx]
      exact negateResult hsession hx
  | false =>
      simp only [Bool.false_eq_true, if_false]
      split
      · exact negateTyped hsession hmark _
      split
      next value hvalue =>
        split at hvalue
        · exact negateResult hsession hvalue
        · exact nomatch hvalue
      · exact display hsession hmark isShown_minus

theorem setAngleMode (hsession : Consistent session) (mode : Datum) :
    Sound (session.onState (session.state.setAngleMode mode)) := by
  obtain ⟨chosen, -, hmode⟩ | ⟨fault, -, hmode⟩ := session.state.setAngleMode_cases mode
  · rw [hmode]
    exact of_no_records (hsession.setAngleMode chosen)
  · rw [hmode]
    exact of_no_records hsession

/-- Every key keeps a session consistent and writes nothing that the state rejects. -/
theorem press (hsession : Consistent session) (key : Key) : Sound (session.press key) := by
  cases key with
  | enter text => exact enter hsession text
  | append fragment => exact append hsession fragment
  | evaluate formula => exact evaluate hsession formula
  | evaluateValue formula => exact of_no_records hsession
  | memoryStore =>
      exact withMemory hsession (Memory.isFinite_store hsession.memory_finite)
        fun _ _ => Memory.source_of_mem_store
  | memoryAdd =>
      exact withMemory hsession (Memory.isFinite_add hsession.memory_finite)
        fun _ _ => Memory.source_of_mem_add
  | memoryRecall => exact showMemory hsession
  | memoryClear => exact of_no_records (hsession.setMemory rfl)
  | negate => exact negate hsession
  | clearEntry => exact of_no_records (hsession.unmark.setInputBuffer rfl isShown_empty)
  | allClear =>
      exact of_no_records { consistent_initial with memory_finite := hsession.memory_finite }
  | toggleAngleMode => exact of_no_records (hsession.setAngleMode _)
  | setAngleMode mode => exact setAngleMode hsession mode
  | showAngleMode => exact of_no_records hsession

end Sound

/-- Along a run from the start the session stays consistent, and every key is sound. -/
theorem sound_outcomes (keys : List Key) :
    Consistent (initial.after keys) ∧ ∀ outcome ∈ initial.outcomes keys, Sound outcome := by
  apply after_of_invariant _ consistent_initial
  intro session key hsession
  have hsound := Sound.press hsession key
  exact ⟨hsound.consistent, hsound⟩

/-- Whatever keys are pressed from the start, the session is consistent, its formula passes the
check once its open parentheses are closed, and no value that was written has been rejected. -/
theorem consistent_after (keys : List Key) :
    Consistent (initial.after keys) ∧
      Parentheses.validate ((initial.after keys).state.expression ++
        String.ofList (List.replicate (initial.after keys).state.parenthesisDepth ')')) = .ok () ∧
      ∀ outcome ∈ initial.outcomes keys, ∀ record ∈ outcome.records,
        record.source ≠ Component.state.name := by
  obtain ⟨hsession, hsound⟩ := sound_outcomes keys
  exact ⟨hsession, validate_append_closings hsession.depth_formula,
    fun outcome houtcome => (hsound outcome houtcome).accepted⟩

end Session

end SciCalc
