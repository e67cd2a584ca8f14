import SciCalc.Proofs.Session.Faults
import SciCalc.Proofs.Session.Typing

/-! # Numbers typed in parts

Whether a number is typed at once or character by character makes no difference: every beginning of a
text that can be typed can be typed too, and behind it the rest. What has been typed can be taken back
from its end, and what is left can always be typed on.
-/

namespace SciCalc.Session

variable (session : Session)

theorem numberTyped_withNumber (text : String) : (session.withNumber text).numberTyped = text := by
  rw [numberTyped, withNumber, justEvaluated_startNumber]
  rfl

/-- A number in the place of a number: only the later one is left. -/
theorem withNumber_withNumber (first second : String) :
    (session.withNumber first).withNumber second = session.withNumber second := by
  have hstarted : (session.withNumber first).startNumber = session.withNumber first := by
    rw [startNumber, withNumber, justEvaluated_startNumber]
    rfl
  rw [withNumber, hstarted]
  rfl

/-- A text is accepted if it continues the number being typed to one that can be typed. -/
theorem accepts_enter_iff (text : String) :
    session.accepts (.enter text) = true ↔
      Display.isPartialInput (session.numberTyped ++ text) = true := by
  obtain ⟨hpartial, henter⟩ | ⟨hpartial, henter⟩ := enter_cases session text
  · rw [accepts, press, henter, hpartial]
    rfl
  · rw [accepts, press, henter, hpartial]
    rfl

theorem press_enter_of_accepted {text : String} (haccepted : session.accepts (.enter text) = true) :
    session.press (.enter text) = .answer (.text (session.numberTyped ++ text))
      (session.withNumber (session.numberTyped ++ text)) := by
  rw [accepts_enter_iff] at haccepted
  obtain ⟨-, henter⟩ | ⟨hpartial, -⟩ := enter_cases session text
  · exact henter
  · exact absurd (haccepted.symm.trans hpartial) (by decide)

/-- Backspaces take as many characters from the end of the number and leave everything else. -/
theorem struck_backspaces (count : Nat) :
    session.struck (List.replicate count .backspace) =
      { session with state := { session.state with
          inputBuffer := String.ofList (session.state.inputBuffer.toList.rdrop count) } } := by
  induction count with
  | zero =>
      rw [List.rdrop_zero, String.ofList_toList]
      rfl
  | succ count ih =>
      rw [List.replicate_succ', struck, List.foldl_append]
      change ((session.struck (List.replicate count .backspace)).strike .backspace).state = _
      rw [ih, ← dropLast_rdrop]
      simp [strike, Stroke.command, apply, State.apply, State.backspace, onState, Outcome.silent]

/-! ## One text and its parts -/

section Parts

variable (first second : String)

/-- Two texts are accepted one behind the other if they are accepted as one. -/
theorem accepts_enter_append_iff :
    session.accepts (.enter (first ++ second)) = true ↔
      session.accepts (.enter first) = true ∧
        (session.press (.enter first)).state.accepts (.enter second) = true := by
  have hbehind : session.accepts (.enter first) = true →
      ((session.press (.enter first)).state.accepts (.enter second) = true ↔
        session.accepts (.enter (first ++ second)) = true) := by
    intro hfirst
    rw [enter_of_accepted hfirst, accepts_enter_iff, accepts_enter_iff, numberTyped_withNumber,
      String.append_assoc]
  constructor
  · intro haccepted
    have hfirst : session.accepts (.enter first) = true := by
      rw [accepts_enter_iff] at haccepted ⊢
      refine Display.isPartialInput_of_prefix ?_ haccepted
      rw [← String.append_assoc, String.toList_append (s := session.numberTyped ++ first)]
      exact List.prefix_append _ _
    exact ⟨hfirst, (hbehind hfirst).mpr haccepted⟩
  · rintro ⟨hfirst, hsecond⟩
    exact (hbehind hfirst).mp hsecond

/-- The second text then answers and does what both together do. -/
theorem press_enter_append (haccepted : session.accepts (.enter (first ++ second)) = true) :
    (session.press (.enter first)).state.press (.enter second) =
      session.press (.enter (first ++ second)) := by
  obtain ⟨hfirst, hsecond⟩ := (accepts_enter_append_iff session first second).mp haccepted
  rw [press_enter_of_accepted _ hsecond, press_enter_of_accepted session haccepted,
    enter_of_accepted hfirst, numberTyped_withNumber, withNumber_withNumber, String.append_assoc]

end Parts

/-- What is left of a typed number when characters are taken back can be typed. -/
theorem isPartialInput_struck_backspaces {text : String}
    (haccepted : session.accepts (.enter text) = true) (count : Nat) :
    Display.isPartialInput ((session.press (.enter text)).state.struck
      (List.replicate count .backspace)).state.inputBuffer = true := by
  rw [enter_of_accepted haccepted, struck_backspaces]
  rw [accepts_enter_iff] at haccepted
  refine Display.isPartialInput_of_prefix ?_ haccepted
  rw [String.toList_ofList, List.rdrop]
  exact List.take_prefix _ _

/-- A number can be typed in any parts, in any session: together they are accepted exactly if each is
accepted behind those before it, and then the last of them leaves the session that the whole number
leaves. After that any number of characters can be taken back. -/
theorem typing_in_parts :
    (∀ first second : String,
      session.accepts (.enter (first ++ second)) = true →
        session.accepts (.enter first) = true ∧
          (session.press (.enter first)).state.accepts (.enter second) = true ∧
            (session.press (.enter first)).state.press (.enter second) =
              session.press (.enter (first ++ second))) ∧
    (∀ first second : String,
      session.accepts (.enter first) = true →
        (session.press (.enter first)).state.accepts (.enter second) = true →
          session.accepts (.enter (first ++ second)) = true) ∧
    ∀ (text : String) (count : Nat), session.accepts (.enter text) = true →
      Display.isPartialInput ((session.press (.enter text)).state.struck
        (List.replicate count .backspace)).state.inputBuffer = true := by
  refine ⟨fun first second haccepted => ?_, fun first second hfirst hsecond => ?_,
    fun text count haccepted => isPartialInput_struck_backspaces session haccepted count⟩
  · obtain ⟨hfirst, hsecond⟩ := (accepts_enter_append_iff session first second).mp haccepted
    exact ⟨hfirst, hsecond, press_enter_append session first second haccepted⟩
  · exact (accepts_enter_append_iff session first second).mpr ⟨hfirst, hsecond⟩

/-- The first part takes the place of the result on display, and the second one continues it. -/
theorem typing_in_parts_behind_third :
    ((initial.press (.evaluate (some "1/3"))).state.press (.enter "-2")).state.press (.enter ".5") =
        (initial.press (.evaluate (some "1/3"))).state.press (.enter "-2.5") ∧
      (initial.press (.evaluate (some "1/3"))).state.accepts (.enter "-2.5") = true ∧
      Display.isPartialInput (((initial.press (.evaluate (some "1/3"))).state.press
        (.enter "-2.5")).state.struck (List.replicate 3 .backspace)).state.inputBuffer = true := by
  have haccepted : (initial.press (.evaluate (some "1/3"))).state.accepts
      (.enter ("-2" ++ ".5")) = true := by decide +kernel
  obtain ⟨hparts, -, hbackspaces⟩ := typing_in_parts (initial.press (.evaluate (some "1/3"))).state
  exact ⟨(hparts "-2" ".5" haccepted).2.2, haccepted, hbackspaces _ 3 haccepted⟩

end SciCalc.Session
