import SciCalc.Proofs.Calls
import SciCalc.Proofs.Formula.Stages
import SciCalc.Proofs.Session.RealValues
import SciCalc.Proofs.Session.Steps
import SciCalc.Proofs.Session.WrittenValues

/-! # Writing to the state

The state has six fields, and every call writes its own ones: what it writes is a list of fields
with their new values, and all other fields stay. A result, a depth or an angle mode is written only
if the value is one, and a text only of a value that has one; every other value is rejected whole.
So whatever calls are made, with values of whatever kind, the fields hold what they are meant to
hold.
-/

namespace SciCalc.State

/-! ## Fields -/

inductive Field where
  | inputBuffer
  | expression
  | lastResult
  | angleMode
  | parenthesisDepth
  | error
  deriving DecidableEq

/-- A text that may be missing, as a value. -/
def ofText? : Option String → Datum
  | some text => .text text
  | none => .nothing

/-- What a field holds. -/
def get (state : State) : Field → Datum
  | .inputBuffer => .text state.inputBuffer
  | .expression => .text state.expression
  | .lastResult => .ofDouble? state.lastResult
  | .angleMode => .text state.angleMode.name
  | .parenthesisDepth => .number (.int state.parenthesisDepth)
  | .error => ofText? state.error

/-- What a field is meant to hold. -/
def Field.Admits : Field → Datum → Prop
  | .inputBuffer, value | .expression, value => ∃ text, value = .text text
  | .lastResult, value => value = .nothing ∨ ∃ x : Double, x.isFinite = true ∧ value = .float x
  | .angleMode, value => value = .text "deg" ∨ value = .text "rad"
  | .parenthesisDepth, value =>
      ∃ depth : Nat, depth ≤ Settings.greatestDepth ∧ value = .number (.int depth)
  | .error, value => ∃ message : Option String, value = ofText? message

/-- Every field holds what it is meant to hold. -/
def IsWellKept (state : State) : Prop := ∀ field : Field, field.Admits (state.get field)

theorem admits_mode (mode : AngleMode) : Field.angleMode.Admits (.text mode.name) := by
  cases mode
  · exact .inl rfl
  · exact .inr rfl

/-! ## Commands -/

namespace Command

/-- The value of the call is one that its field takes. -/
def IsAccepted : Command → Prop
  | setInputBuffer value | setExpression value => value.HasText
  | setLastResult value => value.IsFiniteReal
  | setParenthesisDepth value =>
      ∃ depth : Nat, depth ≤ Settings.greatestDepth ∧ value = .number (.int depth)
  | setAngleMode value => ∃ mode : AngleMode, value = .text mode.name
  | clearInputBuffer | backspace | toggleAngleMode | setError _ | clearError | reset => True

/-- The fields that a call writes in a state, with what it writes. -/
def writes (state : State) : Command → List (Field × Datum)
  | setInputBuffer value => [(.inputBuffer, .text value.written), (.error, .nothing)]
  | clearInputBuffer => [(.inputBuffer, .text ""), (.error, .nothing)]
  | backspace => [(.inputBuffer, .text (String.ofList state.inputBuffer.toList.dropLast))]
  | setExpression value => [(.expression, .text value.written)]
  | setLastResult value => [(.lastResult, .float value.toDouble)]
  | setAngleMode value => [(.angleMode, value)]
  | toggleAngleMode => [(.angleMode, .text state.angleMode.toggle.name)]
  | setParenthesisDepth value => [(.parenthesisDepth, value)]
  | setError message => [(.error, ofText? message)]
  | clearError => [(.error, .nothing)]
  | reset =>
      [(.inputBuffer, .text ""), (.expression, .text ""), (.lastResult, .nothing),
        (.angleMode, .text AngleMode.default.name), (.parenthesisDepth, .number (.int 0)),
        (.error, .nothing)]

/-- The fault of an angle mode that does not exist. -/
def unknownMode : Fault := .calculation (.ofKind .invalidAngleMode)

/-- What is answered to a call whose value is not accepted: an angle mode that does not exist and a
value without a text are errors, a result and a depth are not. -/
def refusal : Command → Except Fault Datum
  | setAngleMode _ => .error unknownMode
  | setInputBuffer _ | setExpression _ => .error .malformed
  | _ => .ok .nothing

/-- The calls that fail if their value is not accepted, each with its fault. -/
inductive FailsWith : Command → Fault → Prop
  | angleMode (value : Datum) : FailsWith (.setAngleMode value) unknownMode
  | inputBuffer (value : Datum) : FailsWith (.setInputBuffer value) .malformed
  | expression (value : Datum) : FailsWith (.setExpression value) .malformed

theorem refusal_eq_error_iff {command : Command} {fault : Fault} :
    command.refusal = .error fault ↔ FailsWith command fault := by
  constructor
  · intro hrefusal
    cases command with
    | setAngleMode value =>
        obtain rfl := Except.error.inj hrefusal
        exact .angleMode value
    | setInputBuffer value =>
        obtain rfl := Except.error.inj hrefusal
        exact .inputBuffer value
    | setExpression value =>
        obtain rfl := Except.error.inj hrefusal
        exact .expression value
    | _ => cases hrefusal
  · intro hfails
    cases hfails with
    | angleMode value | inputBuffer value | expression value => rfl

end Command

theorem depthOf?_of_not_isAccepted {value : Datum}
    (hdepth : ¬(Command.setParenthesisDepth value).IsAccepted) : depthOf? value = none := by
  unfold depthOf?
  split
  next n =>
    refine if_neg fun hrange => hdepth ?_
    obtain ⟨hlow, hhigh⟩ := (Bool.and_eq_true _ _).mp hrange
    have hcast := Int.toNat_of_nonneg (of_decide_eq_true hlow)
    refine ⟨n.toNat, ?_, by rw [hcast]⟩
    exact Int.ofNat_le.mp (hcast.trans_le (of_decide_eq_true hhigh))
  · rfl

/-- What a call with an accepted value does: it is answered and writes its fields. -/
theorem apply_of_isAccepted (state : State) {command : Command} (haccepted : command.IsAccepted) :
    (∃ reply, (state.apply command).reply = .ok reply) ∧
      ∀ field, (state.apply command).state.get field =
        ((command.writes state).lookup field).getD (state.get field) := by
  cases command with
  | setLastResult value =>
      have hset : state.setLastResult value =
          .silent { state with lastResult := some value.toDouble } := by
        rw [setLastResult, resultOf?_of_isFiniteReal haccepted]
      rw [apply, hset]
      exact ⟨⟨_, rfl⟩, fun field => by cases field <;> rfl⟩
  | setParenthesisDepth value =>
      obtain ⟨depth, hdepth, rfl⟩ := haccepted
      rw [apply, state.setParenthesisDepth_nat hdepth]
      exact ⟨⟨_, rfl⟩, fun field => by cases field <;> rfl⟩
  | setAngleMode value =>
      obtain ⟨mode, rfl⟩ := haccepted
      rw [apply, setAngleMode, Formula.ofDatum_text_name]
      exact ⟨⟨_, rfl⟩, fun field => by cases field <;> rfl⟩
  | setInputBuffer value | setExpression value =>
      rw [apply, state.writeText_of_hasText _ haccepted]
      exact ⟨⟨_, rfl⟩, fun field => by cases field <;> rfl⟩
  | clearInputBuffer | backspace | toggleAngleMode | setError message | clearError | reset =>
      exact ⟨⟨_, rfl⟩, fun field => by cases field <;> rfl⟩

/-- What a call with any other value does: it changes nothing. -/
theorem apply_of_not_isAccepted (state : State) {command : Command}
    (hrejected : ¬command.IsAccepted) :
    (state.apply command).state = state ∧ (state.apply command).reply = command.refusal := by
  cases command with
  | setLastResult value =>
      rw [apply, setLastResult, resultOf?_of_not_isFiniteReal hrejected]
      exact ⟨rfl, rfl⟩
  | setParenthesisDepth value =>
      rw [apply, setParenthesisDepth, depthOf?_of_not_isAccepted hrejected]
      exact ⟨rfl, rfl⟩
  | setAngleMode value =>
      obtain hmode | ⟨-, hfails⟩ := Formula.ofDatum_cases value
      · exact absurd hmode hrejected
      · rw [apply, setAngleMode, hfails]
        exact ⟨rfl, rfl⟩
  | setInputBuffer value | setExpression value =>
      rw [apply, state.writeText_of_not_hasText _ hrejected]
      exact ⟨rfl, rfl⟩
  | clearInputBuffer | backspace | toggleAngleMode | setError message | clearError | reset =>
      exact absurd trivial hrejected

theorem apply_reply_eq_error_iff {state : State} {command : Command} {fault : Fault} :
    (state.apply command).reply = .error fault ↔
      ¬command.IsAccepted ∧ command.FailsWith fault := by
  by_cases haccepted : command.IsAccepted
  · obtain ⟨⟨reply, hreply⟩, -⟩ := state.apply_of_isAccepted haccepted
    rw [hreply]
    exact iff_of_false nofun fun hfails => hfails.1 haccepted
  · rw [(state.apply_of_not_isAccepted haccepted).2, Command.refusal_eq_error_iff]
    exact (and_iff_right haccepted).symm

/-! ## Commands in turn -/

theorem isWellKept_initial : initial.IsWellKept
  | .inputBuffer | .expression => ⟨"", rfl⟩
  | .lastResult => .inl rfl
  | .angleMode => admits_mode .default
  | .parenthesisDepth => ⟨0, Nat.zero_le _, rfl⟩
  | .error => ⟨none, rfl⟩

/-- What is written into a field is what the field is meant to hold. -/
theorem admits_writes (state : State) {command : Command} (haccepted : command.IsAccepted) :
    ∀ write ∈ command.writes state, write.1.Admits write.2 := by
  cases command with
  | setInputBuffer _ | clearInputBuffer =>
      exact List.forall_mem_cons.mpr ⟨⟨_, rfl⟩, List.forall_mem_singleton.mpr ⟨none, rfl⟩⟩
  | backspace | setExpression _ => exact List.forall_mem_singleton.mpr ⟨_, rfl⟩
  | setLastResult value =>
      exact List.forall_mem_singleton.mpr
        (.inr ⟨_, value.isFinite_toDouble_iff.mpr haccepted, rfl⟩)
  | setAngleMode value =>
      obtain ⟨mode, rfl⟩ := haccepted
      exact List.forall_mem_singleton.mpr (admits_mode mode)
  | toggleAngleMode => exact List.forall_mem_singleton.mpr (admits_mode _)
  | setParenthesisDepth value => exact List.forall_mem_singleton.mpr haccepted
  | setError message => exact List.forall_mem_singleton.mpr ⟨message, rfl⟩
  | clearError => exact List.forall_mem_singleton.mpr ⟨none, rfl⟩
  | reset =>
      -- a new state is written, field by field
      have hinitial : Command.writes state .reset =
          [Field.inputBuffer, .expression, .lastResult, .angleMode, .parenthesisDepth,
            .error].map fun field => (field, initial.get field) := rfl
      rw [hinitial]
      exact List.forall_mem_map.mpr fun field _ => isWellKept_initial field

theorem isWellKept_apply {state : State} (hstate : state.IsWellKept) (command : Command) :
    (state.apply command).state.IsWellKept := by
  by_cases haccepted : command.IsAccepted
  · intro field
    rw [(state.apply_of_isAccepted haccepted).2 field]
    cases hwritten : (command.writes state).lookup field with
    | none => exact hstate field
    | some value =>
        obtain ⟨_, _, hwrites, -⟩ := List.lookup_eq_some_iff.mp hwritten
        have hwrite : (field, value) ∈ command.writes state := by simp [hwrites]
        exact state.admits_writes haccepted _ hwrite
  · rw [(state.apply_of_not_isAccepted haccepted).1]
    exact hstate

theorem isWellKept_afterCalls (commands : List Command) :
    (afterCalls apply initial commands).IsWellKept := by
  refine afterCalls_of_invariant IsWellKept ?_ isWellKept_initial commands
  exact fun _ command hstate => isWellKept_apply hstate command

/-- Whatever commands have been carried out, every field holds what it is meant to hold. The next
one fails only if it sets an angle mode that does not exist, or writes the text of an integer of too
many digits; if its value is not accepted, the state stays as it is, and otherwise each field holds
what is written into it, or what it held before. -/
theorem bad_writes_rejected_whole (commands : List Command) (command : Command) :
    let state := afterCalls apply initial commands
    let outcome := state.apply command
    state.IsWellKept ∧
      (∀ fault, outcome.reply = .error fault ↔
        ¬command.IsAccepted ∧ command.FailsWith fault) ∧
      (¬command.IsAccepted → outcome.state = state) ∧
      (command.IsAccepted → ∀ field, outcome.state.get field =
        ((command.writes state).lookup field).getD (state.get field)) := by
  intro state outcome
  refine ⟨isWellKept_afterCalls commands, ?_, ?_, ?_⟩
  · exact fun _ => apply_reply_eq_error_iff
  · exact fun hrejected => (state.apply_of_not_isAccepted hrejected).1
  · exact fun haccepted => (state.apply_of_isAccepted haccepted).2

/-- A power of ten beyond the range is no result, a truth value no depth and no double is one, and
an integer of 4301 digits is not typed. -/
example : afterCalls apply initial [.setLastResult (.number (.int (10 ^ 400))),
    .setParenthesisDepth (.truth true), .setParenthesisDepth (.float (.ofInt 2)),
    .setInputBuffer (.number (.int (10 ^ 4300)))] = initial := by
  decide +kernel

end SciCalc.State
