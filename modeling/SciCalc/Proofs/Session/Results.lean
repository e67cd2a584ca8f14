import SciCalc.Proofs.Formula.LeadingNumber
import SciCalc.Proofs.Session.Consistency

/-! # Results on display

A successful evaluation keeps its value itself beside the text that it displays. Whatever continues
from there continues from the value: the text of the value is evaluated, never the displayed one.
That text reads back as the same double, so evaluating again changes nothing, and a fragment behind
it works on the value as on a number in parentheses.
-/

namespace SciCalc.Session

/-- The evaluation succeeds, with the given finite value. A value that is not finite is answered as
a text only: the session reports it as an error and does not keep it. -/
structure Yields (session : Session) (given : Option String) (value : Double) : Prop where
  value_eq : session.evaluateValue (given.getD session.pendingFormula) = .ok value
  finite : value.isFinite = true
  accepted : session.accepts (.evaluate given) = true

/-- The value is on display as the result of an evaluation. -/
structure Shows (session : Session) (value : Double) : Prop where
  marked : session.justEvaluated = true
  expression_eq : session.state.expression = ""
  depth_eq : session.state.parenthesisDepth = 0
  error_eq : session.state.error = none
  lastResult_eq : session.state.lastResult = some value
  finite : value.isFinite = true
  displayed : Display.formatDouble value = .ok session.state.inputBuffer

variable {session : Session} {given : Option String} {value : Double}

/-- An evaluation with a finite value displays it. -/
theorem evaluate_of_value {text : String}
    (hvalue : session.evaluateValue (given.getD session.pendingFormula) = .ok value)
    (hfinite : value.isFinite = true) (htext : Display.formatDouble value = .ok text) :
    (session.press (.evaluate given)).reply = .ok (.text text) ∧
      (session.press (.evaluate given)).state = session.withResult value text := by
  simp only [press, evaluate, hvalue, htext, hfinite, if_true, showResult_eq session hfinite,
    and_self]

theorem shows_withResult {text : String} (hfinite : value.isFinite = true)
    (htext : Display.formatDouble value = .ok text) : (session.withResult value text).Shows value :=
  ⟨rfl, rfl, rfl, rfl, rfl, hfinite, htext⟩

theorem Yields.exists_text (hyields : session.Yields given value) :
    ∃ text, Display.formatDouble value = .ok text := by
  obtain ⟨hvalue, -, haccepted⟩ := hyields
  cases htext : Display.formatDouble value with
  | ok text => exact ⟨text, rfl⟩
  | error fault =>
      simp only [accepts, press, evaluate, hvalue, htext] at haccepted
      exact absurd haccepted Bool.false_ne_true

theorem Yields.shows (hyields : session.Yields given value) :
    (session.press (.evaluate given)).reply =
        .ok (.text (session.press (.evaluate given)).state.state.inputBuffer) ∧
      (session.press (.evaluate given)).state.Shows value := by
  obtain ⟨text, htext⟩ := hyields.exists_text
  obtain ⟨hreply, hstate⟩ := evaluate_of_value hyields.value_eq hyields.finite htext
  rw [hreply, hstate]
  exact ⟨rfl, shows_withResult hyields.finite htext⟩

namespace Shows

variable (hshows : session.Shows value)

include hshows

theorem resultText_eq : session.resultText = value.toText := by
  rw [resultText, hshows.lastResult_eq]
  rfl

theorem continued_eq (fragment : String) :
    session.continued fragment = value.toText ++ fragment := by
  rw [continued, if_pos hshows.marked, hshows.resultText_eq]

theorem pendingFormula_eq : session.pendingFormula = value.toText := by
  rw [pendingFormula, if_pos hshows.marked, hshows.resultText_eq]

theorem withResult_eq : session.withResult value session.state.inputBuffer = session := by
  obtain ⟨⟨inputBuffer, expression, lastResult, angleMode, depth, error⟩, memory, mark⟩ := session
  obtain ⟨rfl, rfl, rfl, rfl, rfl, -, -⟩ := hshows
  rfl

/-- Evaluating again answers the displayed text and changes nothing. -/
theorem evaluate_eq :
    (session.press (.evaluate none)).reply = .ok (.text session.state.inputBuffer) ∧
      (session.press (.evaluate none)).state = session := by
  have hvalue : session.evaluateValue ((none : Option String).getD session.pendingFormula) =
      .ok value := by
    rw [Option.getD_none, hshows.pendingFormula_eq]
    exact Formula.evaluate_toText session.state.angleMode ⟨value, hshows.finite⟩
  obtain ⟨hreply, hstate⟩ := evaluate_of_value hvalue hshows.finite hshows.displayed
  exact ⟨hreply, hstate.trans hshows.withResult_eq⟩

/-- A change of sign puts the opposite value on display. -/
theorem negate_shows :
    (session.press .negate).reply =
        .ok (.text (session.press .negate).state.state.inputBuffer) ∧
      (session.press .negate).state.Shows value.neg := by
  have hfinite : value.neg.isFinite = true := by rw [Double.isFinite_neg, hshows.finite]
  obtain ⟨text, htext⟩ := Display.exists_formatDouble_neg hshows.displayed
  have hnegate : session.press .negate = session.negateResult value := by
    simp only [press, negate, hshows.marked, if_true, hshows.lastResult_eq]
    rfl
  simp only [hnegate, negateResult, State.setLastResult_float _ hfinite, Outcome.silent, htext]
  exact ⟨rfl, hshows.marked, hshows.expression_eq, hshows.depth_eq, rfl, rfl, hfinite, htext⟩

end Shows

/-! ## Evaluating again -/

/-- The outcome answers the text on display, where the value stands as a result. However often it
is evaluated again without an argument, the same text is answered and nothing changes. -/
structure RestsAt (outcome : Outcome Session) (value : Double) : Prop where
  answers : outcome.reply = .ok (.text outcome.state.state.inputBuffer)
  shows : outcome.state.Shows value
  repeats : ∀ count,
    outcome.state.after (List.replicate count (.evaluate none)) = outcome.state ∧
      ∀ again ∈ outcome.state.outcomes (List.replicate count (.evaluate none)),
        again.reply = outcome.reply ∧ again.state = outcome.state

theorem restsAt_of_shows {outcome : Outcome Session}
    (hreply : outcome.reply = .ok (.text outcome.state.state.inputBuffer))
    (hshows : outcome.state.Shows value) : RestsAt outcome value := by
  obtain ⟨hagain, hfixed⟩ := hshows.evaluate_eq
  refine ⟨hreply, hshows, ?_⟩
  intro count
  obtain ⟨hend, hall⟩ := after_replicate_of_fixed hfixed count
  refine ⟨hend, ?_⟩
  intro again hmem
  rw [hall again hmem, hagain, hreply]
  exact ⟨rfl, hfixed⟩

/-- A result stays what it is when it is evaluated again, however often, and so does its opposite
after a change of sign: the text of a finite double is the one token, and has the one value, that
the double is. -/
theorem evaluate_again (hyields : session.Yields given value) :
    RestsAt (session.press (.evaluate given)) value ∧
      RestsAt ((session.press (.evaluate given)).state.press .negate) value.neg ∧
      ∀ (x : Formula.FiniteDouble) (mode : AngleMode),
        Token.tokenize x.1.toText = .ok [.number x.1 (some x.1.toText)] ∧
          Formula.evaluateIn Standard.arithmetic (.text mode.name) x.1.toText = .ok x.1 := by
  obtain ⟨hreply, hshows⟩ := hyields.shows
  obtain ⟨hnegated, hopposite⟩ := hshows.negate_shows
  refine ⟨restsAt_of_shows hreply hshows, restsAt_of_shows hnegated hopposite, ?_⟩
  intro x mode
  rw [Formula.evaluateIn_text_name]
  exact ⟨Token.tokenize_toText x, Formula.evaluate_toText mode x⟩

/-- The two zeros are displayed alike and stay apart. -/
theorem evaluate_again_at_negative_zero :
    initial.Yields (some "0*-1") (Double.zero true) ∧
      RestsAt (initial.press (.evaluate (some "0*-1"))) (Double.zero true) ∧
      RestsAt ((initial.press (.evaluate (some "0*-1"))).state.press .negate)
        (Double.zero false) := by
  have hyields : initial.Yields (some "0*-1") (Double.zero true) :=
    ⟨by decide +kernel, by decide, by decide +kernel⟩
  obtain ⟨hresult, hopposite, -⟩ := evaluate_again hyields
  exact ⟨hyields, hresult, hopposite⟩

/-! ## Continuing from a result -/

/-- Evaluations of the same value, with the same last result before them, answer alike and leave
the same last result. -/
theorem evaluate_congr {first second : Session} {firstGiven secondGiven : Option String}
    (hvalue : first.evaluateValue (firstGiven.getD first.pendingFormula) =
      second.evaluateValue (secondGiven.getD second.pendingFormula))
    (hresult : first.state.lastResult = second.state.lastResult) :
    (first.press (.evaluate firstGiven)).reply = (second.press (.evaluate secondGiven)).reply ∧
      (first.press (.evaluate firstGiven)).state.state.lastResult =
        (second.press (.evaluate secondGiven)).state.state.lastResult := by
  simp only [press, evaluate, hvalue]
  split
  · exact ⟨rfl, hresult⟩
  · exact ⟨rfl, hresult⟩
  next x _ =>
    split
    · exact ⟨rfl, hresult⟩
    split
    next hfinite =>
      rw [showResult_eq first hfinite, showResult_eq second hfinite]
      exact ⟨rfl, rfl⟩
    · exact ⟨rfl, hresult⟩

/-- An accepted fragment becomes the end of the formula. -/
theorem append_of_accepted {fragment : String}
    (haccepted : session.accepts (.append fragment) = true) :
    ∃ depth, (session.press (.append fragment)).state =
      session.withFormula (session.continued fragment) depth := by
  obtain ⟨depth, -, happend⟩ | ⟨-, happend⟩ := append_cases session fragment
  · rw [press, happend]
    exact ⟨depth, rfl⟩
  · rw [accepts, press, happend] at haccepted
    exact absurd haccepted Bool.false_ne_true

theorem pendingFormula_withFormula (formula : String) (depth : Nat) :
    (session.withFormula formula depth).pendingFormula = formula := by
  simp [pendingFormula, withFormula]

/-- A fragment that begins with an operator sign or an opening parenthesis works on the result
itself: its evaluation answers, and leaves as last result, what the number in parentheses in front
of the fragment does, and the first token is the double of the result, read back as such. -/
theorem continue_after_result (hyields : session.Yields given value) {fragment : String}
    (hcontinues : Token.ContinuesOperand fragment.toList)
    (haccepted : (session.press (.evaluate given)).state.accepts (.append fragment) = true) :
    let shown := (session.press (.evaluate given)).state
    let continued := (shown.press (.append fragment)).state
    let direct := shown.press (.evaluate (some ("(" ++ value.toText ++ ")" ++ fragment)))
    (continued.press (.evaluate none)).reply = direct.reply ∧
      (continued.press (.evaluate none)).state.state.lastResult =
        direct.state.state.lastResult ∧
      continued.pendingFormula = value.toText ++ fragment ∧
      (∀ tokens, Token.tokenize continued.pendingFormula = .ok tokens →
        tokens.head? = some (.number value (some value.toText))) ∧
      Standard.arithmetic.read value.toText = .ok value := by
  intro shown continued direct
  obtain ⟨-, hshows⟩ := hyields.shows
  let result : Formula.FiniteDouble := ⟨value, hyields.finite⟩
  obtain ⟨depth, hcontinued⟩ := append_of_accepted haccepted
  rw [hshows.continued_eq] at hcontinued
  change continued = _ at hcontinued
  have hpending : continued.pendingFormula = value.toText ++ fragment := by
    rw [hcontinued, pendingFormula_withFormula]
  have hvalue : continued.evaluateValue ((none : Option String).getD continued.pendingFormula) =
      shown.evaluateValue
        ((some ("(" ++ value.toText ++ ")" ++ fragment)).getD shown.pendingFormula) := by
    rw [Option.getD_none, hpending, hcontinued]
    exact Formula.evaluate_toText_append Standard.arithmetic shown.state.angleMode result hcontinues
  have hresult : continued.state.lastResult = shown.state.lastResult := by
    rw [hcontinued]
    rfl
  obtain ⟨hreply, hlast⟩ := evaluate_congr hvalue hresult
  refine ⟨hreply, hlast, hpending, ?_, Formula.read_printed result⟩
  intro tokens htokens
  rw [hpending, Token.tokenize_toText_append result hcontinues] at htokens
  obtain ⟨rest, -, rfl⟩ := map_eq_ok_iff.mp htokens
  rfl

/-- The minus of a negative result belongs to the number, also in front of a power. -/
theorem continue_after_result_squared :
    initial.Yields (some "1/3-1") (.ofFraction true 6004799503160662 9007199254740992) ∧
      (initial.press (.evaluate (some "1/3-1"))).state.accepts (.append "^2") = true ∧
      ((initial.after [.evaluate (some "1/3-1"), .append "^2"]).press (.evaluate none)).reply =
        ((initial.after [.evaluate (some "1/3-1")]).press
          (.evaluate (some "(-0.6666666666666667)^2"))).reply := by
  have hyields : initial.Yields (some "1/3-1")
      (.ofFraction true 6004799503160662 9007199254740992) :=
    ⟨by decide +kernel, by decide +kernel, by decide +kernel⟩
  have hcontinues : Token.ContinuesOperand "^2".toList :=
    ⟨'^', ['2'], by decide +kernel, .inr (by decide)⟩
  have haccepted :
      (initial.press (.evaluate (some "1/3-1"))).state.accepts (.append "^2") = true := by
    decide +kernel
  have htext : "(" ++ (Double.ofFraction true 6004799503160662 9007199254740992).toText ++ ")" ++
      "^2" = "(-0.6666666666666667)^2" := by decide +kernel
  obtain ⟨hreply, -⟩ := continue_after_result hyields hcontinues haccepted
  rw [htext] at hreply
  exact ⟨hyields, haccepted, hreply⟩

end SciCalc.Session
