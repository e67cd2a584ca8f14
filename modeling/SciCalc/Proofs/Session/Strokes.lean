import Mathlib.Data.List.DropRight
import SciCalc.Proofs.Display.Beginnings
import SciCalc.Proofs.Formula.Rejection
import SciCalc.Proofs.Session.Consistency

/-! # Keys and backspace

Between two keys the last character on display can be taken away. That is a change of the state
alone: the session does not notice it, and right after an evaluation the mark stays. So the display
need not be a number any more, and it need not be the result. What it is, is kept by every key and
by every backspace: the beginning of a number, and while the mark stands the beginning of the text
of the last result.
-/

namespace SciCalc.Session

/-- What can be done at the keyboard: a key is pressed, or the last character is taken away. -/
inductive Stroke where
  | key (key : Key)
  | backspace

namespace Stroke

def command : Stroke → Command
  | key pressed => .key pressed
  | backspace => .state .backspace

/-- How many characters have been taken away since the last evaluation or change of sign, if it were
`count` before the stroke. -/
def taken (count : Nat) : Stroke → Nat
  | key (.evaluate _) | key .negate => 0
  | key _ => count
  | backspace => count + 1

end Stroke

def strike (session : Session) (stroke : Stroke) : Outcome Session := session.apply stroke.command

/-- The session after the strokes have been made in turn. -/
def struck (session : Session) (strokes : List Stroke) : Session :=
  strokes.foldl (fun session stroke => (session.strike stroke).state) session

/-- How many characters have been taken away since the last evaluation or change of sign. -/
def taken (strokes : List Stroke) : Nat := strokes.foldl Stroke.taken 0

variable {session : Session}

/-- The text breaks off in front of a digit of a power of ten, or within the word for infinity. -/
def BreaksOff (text : String) : Prop :=
  ∃ (negative : Bool) (begun : List Char),
    text = String.ofList ((if negative then ['-'] else []) ++ begun) ∧ IsBrokenOff begun

/-- What begins a number is empty or has no digit yet, or breaks off, or can be read. -/
theorem typed_cases {text : String} (hbegins : BeginsNumber text) :
    text = "" ∨ text ∈ unfinished ∨ BreaksOff text ∨
      ∃ x, Double.ofText? text = some x ∧ x ≠ .nan := by
  obtain ⟨negative, begun, htext, hnone | hpoint | hbroken | hread⟩ := hbegins.cases
  · rw [htext, hnone]
    cases negative
    · exact .inl rfl
    · exact .inr (.inl (by decide))
  · rw [htext, hpoint]
    refine .inr (.inl ?_)
    cases negative <;> decide
  · exact .inr (.inr (.inl ⟨negative, begun, htext, hbroken⟩))
  · exact .inr (.inr (.inr hread))

namespace BreaksOff

variable {text : String} (hbroken : BreaksOff text)

include hbroken

theorem ofText?_eq_none : Double.ofText? text = none := by
  obtain ⟨negative, begun, rfl, hbegun⟩ := hbroken
  exact hbegun.ofText?_eq_none negative

/-- There is a letter in it. -/
theorem exists_letter : ∃ c ∈ text.toList, c ∈ ['e', 'E', 'I'] := by
  obtain ⟨negative, begun, rfl, hbegun⟩ := hbroken
  simp only [String.toList_ofList, List.mem_append]
  cases hbegun with
  | power spelled mark sign hpower hmark hsign =>
      exact ⟨mark, .inr (List.mem_append_right _ List.mem_cons_self),
        by rcases hmark with rfl | rfl <;> decide⟩
  | @word word hword =>
      have hall : ∀ word ∈ brokenWords, 'I' ∈ word.toList := by decide
      exact ⟨'I', .inr (hall word hword), by decide⟩

theorem ne_empty : text ≠ "" := by
  rintro rfl
  obtain ⟨c, hmem, -⟩ := hbroken.exists_letter
  exact absurd hmem List.not_mem_nil

theorem notMem_unfinished : text ∉ unfinished := by
  intro hunfinished
  have hall : ∀ text ∈ unfinished, ∀ c ∈ text.toList, c ∉ ['e', 'E', 'I'] := by simp [unfinished]
  obtain ⟨c, hmem, hletter⟩ := hbroken.exists_letter
  exact hall text hunfinished c hmem hletter

end BreaksOff

/-! ## What a change of sign does -/

theorem negate_eq : session.negate =
    if !session.numberTyped.isEmpty && !unfinished.contains session.numberTyped then
      session.negateTyped session.numberTyped
    else
      match (if session.numberTyped.isEmpty then session.state.lastResult else none) with
      | some value => session.negateResult value
      | none => session.display "-" := rfl

/-- The last result changes its sign if no number is being typed. -/
theorem exists_negate_result (hnone : session.numberTyped = "") {value : Double}
    (hvalue : session.state.lastResult = some value) (hfinite : value.isFinite = true) :
    ∃ text, Display.formatDouble value.neg = .ok text ∧
      session.negate = .answer (.text text) { session with
        state := { session.state with
          lastResult := some value.neg, inputBuffer := text, error := none } } := by
  obtain ⟨text, htext⟩ := Display.exists_formatDouble value.neg
  refine ⟨text, htext, ?_⟩
  have hempty : session.numberTyped.isEmpty = true := String.isEmpty_iff.mpr hnone
  rw [← Double.isFinite_neg] at hfinite
  simp only [negate_eq, hempty, hvalue, Bool.not_true, Bool.false_and, Bool.false_eq_true, if_false,
    if_true, negateResult, State.setLastResult_float _ hfinite, Outcome.silent, htext]
  rfl

/-- A minus begins a number if there is no result either, and takes the place of what has no digit
yet. -/
theorem negate_of_unfinished
    (hunfinished : session.numberTyped = "" ∧ session.state.lastResult = none ∨
      session.numberTyped ∈ unfinished) : session.negate = session.display "-" := by
  rcases hunfinished with ⟨hnone, hresult⟩ | hunfinished
  · simp [negate_eq, hnone, hresult]
  · have hempty : session.numberTyped.isEmpty = false := by
      have hall : ∀ text ∈ unfinished, text.isEmpty = false := by decide
      exact hall _ hunfinished
    simp [negate_eq, hempty, hunfinished]

/-- A typed number is read. -/
theorem negate_of_typed (htyped : session.numberTyped ≠ "")
    (hfinished : session.numberTyped ∉ unfinished) :
    session.negate = session.negateTyped session.numberTyped := by
  simp [negate_eq, htyped, hfinished]

/-- A number that is read keeps its text if it is zero, and gets the text of its opposite otherwise.
What cannot be read is a fault. -/
theorem negateTyped_cases (typed : String) :
    (∃ value, Double.ofText? typed = some value ∧
      ((session.negateTyped typed) = .answer (.text session.state.inputBuffer) session ∨
        ∃ text, Display.formatDouble value.neg = .ok text ∧
          session.negateTyped typed = session.display text)) ∨
    (Double.ofText? typed = none ∧ session.negateTyped typed = .failed .malformed session) := by
  unfold negateTyped
  cases Double.ofText? typed with
  | none => exact .inr ⟨rfl, rfl⟩
  | some value =>
      obtain ⟨text, htext⟩ := Display.exists_formatDouble value.neg
      refine .inl ⟨value, rfl, ?_⟩
      simp only [htext]
      split
      · exact .inl rfl
      · exact .inr ⟨text, rfl, rfl⟩

/-! ## What every stroke keeps -/

theorem dropLast_rdrop {α : Type} (xs : List α) (count : Nat) :
    (xs.rdrop count).dropLast = xs.rdrop (count + 1) := by
  rw [List.rdrop, List.rdrop, List.dropLast_eq_take, List.take_take, List.length_take]
  congr 1
  omega

/-- The results are finite and the display begins a number. While the mark stands, the display is
the text of the last result, of which so many characters have been taken away. -/
structure Edited (count : Nat) (session : Session) : Prop where
  lastResult_finite : ∀ x ∈ session.state.lastResult, x.isFinite = true
  memory_finite : session.memory.value.isFinite = true
  begins : BeginsNumber session.state.inputBuffer
  marked : session.justEvaluated = true → ∃ x shown, session.state.lastResult = some x ∧
    Display.formatDouble x = .ok shown ∧
    session.state.inputBuffer = String.ofList (shown.toList.rdrop count)

theorem beginsNumber_empty : BeginsNumber "" :=
  Display.beginsNumber_of_isPartialInput (by decide)

theorem beginsNumber_minus : BeginsNumber "-" :=
  Display.beginsNumber_of_isPartialInput (by decide)

theorem edited_initial : Edited 0 initial where
  lastResult_finite := consistent_initial.lastResult_finite
  memory_finite := rfl
  begins := beginsNumber_empty
  marked hmarked := absurd hmarked Bool.false_ne_true

/-- A session that displays its last result in full. -/
theorem edited_of_displayed {x : Double} (hresult : session.state.lastResult = some x)
    (hdisplayed : Display.formatDouble x = .ok session.state.inputBuffer)
    (hfinite : x.isFinite = true) (hmemory : session.memory.value.isFinite = true) :
    Edited 0 session where
  lastResult_finite y hy := by
    obtain rfl := Option.some.inj (hresult.symm.trans hy)
    exact hfinite
  memory_finite := hmemory
  begins := Display.beginsNumber_of_formatDouble (Double.ne_nan_of_isFinite hfinite) hdisplayed
  marked _ := ⟨x, _, hresult, hdisplayed, by rw [List.rdrop_zero, String.ofList_toList]⟩

namespace Edited

variable {count : Nat} (hsession : Edited count session)

include hsession

/-- While the mark does not stand, it does not matter what has been taken away. -/
theorem recount (hmark : session.justEvaluated = false) (count' : Nat) : Edited count' session :=
  { hsession with marked := fun hmarked => absurd (hmark.symm.trans hmarked) Bool.false_ne_true }

/-- A text in the place of the number being typed, while the mark does not stand. -/
theorem display (hmark : session.justEvaluated = false) {text : String}
    (hbegins : BeginsNumber text) : Edited count (session.display text).state :=
  { hsession with
    begins := hbegins
    marked := fun hmarked => absurd (hmark.symm.trans hmarked) Bool.false_ne_true }

theorem startNumber : Edited count session.startNumber := by
  unfold Session.startNumber
  split
  · exact { hsession with marked := nofun }
  · exact hsession

theorem withNumber {text : String} (hbegins : BeginsNumber text) :
    Edited count (session.withNumber text) :=
  hsession.startNumber.display (justEvaluated_startNumber session) hbegins

theorem begins_typed : BeginsNumber session.numberTyped := by
  unfold numberTyped
  split
  · exact beginsNumber_empty
  · exact hsession.begins

theorem setMemory {memory : Memory} (hfinite : memory.value.isFinite = true) :
    Edited count { session with memory := memory } :=
  { hsession with memory_finite := hfinite }

theorem setAngleMode (mode : AngleMode) :
    Edited count { session with state := { session.state with angleMode := mode } } :=
  { hsession with }

theorem evaluate (given : Option String) : Edited 0 (session.evaluate given).state := by
  obtain ⟨x, text, hfinite, htext, hstate⟩ | ⟨error, hstate⟩ := evaluate_cases session given
  · rw [hstate]
    exact edited_of_displayed rfl htext hfinite hsession.memory_finite
  · rw [hstate]
    exact { hsession with marked := nofun }

/-- While a number is being typed or nothing can be negated, the mark does not stand. -/
theorem justEvaluated_eq_false
    (htyped : session.numberTyped ≠ "" ∨ session.state.lastResult = none) :
    session.justEvaluated = false := by
  rw [← Bool.not_eq_true]
  intro hmarked
  rcases htyped with htyped | hnone
  · exact htyped (if_pos hmarked)
  · obtain ⟨x, shown, hx, -⟩ := hsession.marked hmarked
    rw [hnone] at hx
    exact nomatch hx

theorem negate : Edited 0 session.negate.state := by
  by_cases hnone : session.numberTyped = ""
  · cases hresult : session.state.lastResult with
    | none =>
        rw [negate_of_unfinished (.inl ⟨hnone, hresult⟩)]
        have hmark := hsession.justEvaluated_eq_false (.inr hresult)
        exact (hsession.recount hmark 0).display hmark beginsNumber_minus
    | some value =>
        have hfinite := hsession.lastResult_finite value hresult
        obtain ⟨text, htext, hnegate⟩ := exists_negate_result hnone hresult hfinite
        rw [← Double.isFinite_neg] at hfinite
        rw [hnegate]
        exact edited_of_displayed rfl htext hfinite hsession.memory_finite
  -- From here on a number is being typed, so the mark does not stand.
  have hmark := hsession.justEvaluated_eq_false (.inl hnone)
  by_cases hunfinished : session.numberTyped ∈ unfinished
  · rw [negate_of_unfinished (.inr hunfinished)]
    exact (hsession.recount hmark 0).display hmark beginsNumber_minus
  rw [negate_of_typed hnone hunfinished]
  rcases negateTyped_cases session.numberTyped with
    ⟨value, hvalue, hkept | ⟨text, htext, hshown⟩⟩ | ⟨-, hfault⟩
  · rw [hkept]
    exact hsession.recount hmark 0
  · rw [hshown]
    refine (hsession.recount hmark 0).display hmark (Display.beginsNumber_of_formatDouble ?_ htext)
    rcases typed_cases hsession.begins_typed with hempty | hdigit | hbroken | ⟨x, hx, hnumber⟩
    · exact absurd hempty hnone
    · exact absurd hdigit hunfinished
    · rw [hbroken.ofText?_eq_none] at hvalue
      exact nomatch hvalue
    · obtain rfl := Option.some.inj (hx.symm.trans hvalue)
      exact Double.neg_ne_nan hnumber
  · rw [hfault]
    exact hsession.recount hmark 0

theorem enter (text : String) : Edited count (session.enter text).state := by
  obtain ⟨hpartial, henter⟩ | ⟨-, henter⟩ := enter_cases session text
  · rw [henter]
    exact hsession.withNumber (Display.beginsNumber_of_isPartialInput hpartial)
  · rw [henter]
    exact hsession

theorem append (fragment : String) : Edited count (session.append fragment).state := by
  obtain ⟨depth, -, happend⟩ | ⟨-, happend⟩ := append_cases session fragment
  · rw [happend]
    exact { hsession with begins := beginsNumber_empty, marked := nofun }
  · rw [happend]
    exact hsession

theorem withMemory {action : Memory → Datum → Outcome Memory}
    (hfinite : ∀ value, (action session.memory value).state.value.isFinite = true) :
    Edited count (session.withMemory action).state := by
  obtain ⟨value, -, hmemory⟩ | ⟨fault, -, hmemory⟩ := withMemory_cases session action
  · rw [hmemory]
    exact hsession.setMemory (hfinite value)
  · rw [hmemory]
    exact hsession

theorem showMemory : Edited count session.showMemory.state := by
  obtain ⟨text, htext, hshow⟩ | ⟨fault, -, hshow⟩ := showMemory_cases session
  · rw [hshow]
    have hmemory := Double.ne_nan_of_isFinite hsession.memory_finite
    exact hsession.withNumber (Display.beginsNumber_of_formatDouble hmemory htext)
  · rw [hshow]
    exact hsession

theorem chooseAngleMode (mode : Datum) :
    Edited count (session.onState (session.state.setAngleMode mode)).state := by
  obtain ⟨chosen, -, hmode⟩ | ⟨fault, -, hmode⟩ := session.state.setAngleMode_cases mode
  · rw [hmode]
    exact hsession.setAngleMode chosen
  · rw [hmode]
    exact hsession

/-- One more character is taken away. -/
theorem backspace :
    Edited (count + 1) (session.onState (.silent session.state.backspace)).state where
  lastResult_finite := hsession.lastResult_finite
  memory_finite := hsession.memory_finite
  begins := hsession.begins.dropLast
  marked hmarked := by
    obtain ⟨x, shown, hx, hshown, hbuffer⟩ := hsession.marked hmarked
    refine ⟨x, shown, hx, hshown, ?_⟩
    change String.ofList session.state.inputBuffer.toList.dropLast = _
    rw [hbuffer, String.toList_ofList, dropLast_rdrop]

/-- Every stroke keeps a session edited. -/
theorem strike (stroke : Stroke) : Edited (stroke.taken count) (session.strike stroke).state := by
  cases stroke with
  | backspace => exact hsession.backspace
  | key pressed =>
      cases pressed with
      | enter text => exact hsession.enter text
      | append fragment => exact hsession.append fragment
      | evaluate given => exact hsession.evaluate given
      | memoryStore => exact hsession.withMemory (Memory.isFinite_store hsession.memory_finite)
      | memoryAdd => exact hsession.withMemory (Memory.isFinite_add hsession.memory_finite)
      | memoryRecall => exact hsession.showMemory
      | memoryClear => exact hsession.setMemory rfl
      | negate => exact hsession.negate
      | clearEntry => exact { hsession with begins := beginsNumber_empty, marked := nofun }
      | allClear =>
          exact { edited_initial with memory_finite := hsession.memory_finite, marked := nofun }
      | setAngleMode mode => exact hsession.chooseAngleMode mode
      | toggleAngleMode => exact hsession.setAngleMode _
      | evaluateValue | showAngleMode => exact hsession

end Edited

/-- Whatever strokes are made from the start, the display begins a number, and while the mark stands
it is the text of the last result without the characters that have been taken away. -/
theorem edited_struck (strokes : List Stroke) :
    Edited (taken strokes) (initial.struck strokes) := by
  -- The strokes go on from any session and any count before them.
  have hrun : ∀ {count : Nat} {session : Session}, Edited count session →
      Edited (strokes.foldl Stroke.taken count) (session.struck strokes) := by
    induction strokes with
    | nil => exact fun hsession => hsession
    | cons stroke rest ih => exact fun hsession => ih (hsession.strike stroke)
  exact hrun edited_initial

/-! ## What is stored -/

theorem eq_of_resultOf?_float {x y : Double} (hresult : State.resultOf? (.float x) = some y) :
    x = y := by
  simp only [State.resultOf?, Datum.float, Number.toFinite?, Number.toDouble?,
    Option.filter_eq_some_iff, Option.some.injEq] at hresult
  exact hresult.1

/-- What is stored is the current value. -/
theorem exists_currentValue_of_stored
    (hstored : (session.withMemory Memory.store).reply.isOk = true) :
    ∃ value, session.currentValue = .ok value ∧
      State.resultOf? value = some (session.withMemory Memory.store).state.memory.value := by
  obtain ⟨value, hvalue, hmemory⟩ | ⟨fault, -, hmemory⟩ := withMemory_cases session Memory.store
  · refine ⟨value, hvalue, ?_⟩
    rw [hmemory] at hstored ⊢
    simp only [onMemory, Memory.store] at hstored ⊢
    cases hresult : State.resultOf? value with
    | none =>
        rw [hresult] at hstored
        exact absurd hstored Bool.false_ne_true
    | some x => rfl
  · rw [hmemory] at hstored
    exact absurd hstored Bool.false_ne_true

/-- The number that is stored is the one that is read from the display or, right after an
evaluation, the one that is displayed there, of whose text characters may have been taken away. -/
theorem stored_is_shown (strokes : List Stroke)
    (hshown : (initial.struck strokes).state.inputBuffer ≠ "")
    (hstored : ((initial.struck strokes).strike (.key .memoryStore)).reply.isOk = true) :
    (taken strokes = 0 →
      Double.ofText? (initial.struck strokes).state.inputBuffer =
          some ((initial.struck strokes).strike (.key .memoryStore)).state.memory.value ∨
        Display.formatDouble
            ((initial.struck strokes).strike (.key .memoryStore)).state.memory.value =
          .ok (initial.struck strokes).state.inputBuffer) ∧
    ((initial.struck strokes).justEvaluated = false →
      Double.ofText? (initial.struck strokes).state.inputBuffer =
        some ((initial.struck strokes).strike (.key .memoryStore)).state.memory.value) ∧
    ((initial.struck strokes).justEvaluated = true → ∃ shown,
      Display.formatDouble
          ((initial.struck strokes).strike (.key .memoryStore)).state.memory.value = .ok shown ∧
        (initial.struck strokes).state.inputBuffer =
          String.ofList (shown.toList.rdrop (taken strokes))) := by
  have hsession := edited_struck strokes
  generalize initial.struck strokes = session at hshown hstored hsession ⊢
  obtain ⟨value, hvalue, hresult⟩ := exists_currentValue_of_stored hstored
  change State.resultOf? value = some (session.strike (.key .memoryStore)).state.memory.value
    at hresult
  generalize (session.strike (.key .memoryStore)).state.memory.value = x at hresult ⊢
  have htyped : session.justEvaluated = false →
      Double.ofText? session.state.inputBuffer = some x := by
    intro hmark
    have hempty : session.state.inputBuffer.isEmpty = false := by simpa using hshown
    simp only [currentValue, hmark, hempty, Bool.false_eq_true, if_false] at hvalue
    split at hvalue
    next y hy =>
      obtain rfl := Except.ok.inj hvalue
      rw [hy, eq_of_resultOf?_float hresult]
    · exact absurd hvalue (fail_ne_ok _ _)
  have hmarked : session.justEvaluated = true → ∃ shown, Display.formatDouble x = .ok shown ∧
      session.state.inputBuffer = String.ofList (shown.toList.rdrop (taken strokes)) := by
    intro hmark
    obtain ⟨y, shown, hy, hdisplayed, hbuffer⟩ := hsession.marked hmark
    rw [currentValue, if_pos hmark, hy] at hvalue
    obtain rfl := Except.ok.inj hvalue
    obtain rfl := eq_of_resultOf?_float hresult
    exact ⟨shown, hdisplayed, hbuffer⟩
  refine ⟨fun hnone => ?_, htyped, hmarked⟩
  cases hmark : session.justEvaluated with
  | false => exact .inl (htyped hmark)
  | true =>
      obtain ⟨shown, hdisplayed, hbuffer⟩ := hmarked hmark
      rw [hnone, List.rdrop_zero, String.ofList_toList] at hbuffer
      exact .inr (hbuffer ▸ hdisplayed)

/-- The opposite of a result is stored in full, and the display has ten digits of it. -/
theorem stored_is_shown_two_thirds :
    (initial.struck [.key (.evaluate (some "2/3")), .key .negate]).state.inputBuffer ≠ "" ∧
      Display.formatDouble ((initial.struck [.key (.evaluate (some "2/3")), .key .negate]).strike
          (.key .memoryStore)).state.memory.value =
        .ok (initial.struck [.key (.evaluate (some "2/3")), .key .negate]).state.inputBuffer := by
  have hshown : (initial.struck [.key (.evaluate (some "2/3")), .key .negate]).state.inputBuffer ≠
      "" := by decide +kernel
  have hstored : ((initial.struck [.key (.evaluate (some "2/3")), .key .negate]).strike
      (.key .memoryStore)).reply.isOk = true := by decide +kernel
  obtain ⟨hnone, -, -⟩ := stored_is_shown _ hshown hstored
  refine ⟨hshown, (hnone rfl).resolve_left ?_⟩
  decide +kernel

/-- After a backspace the whole result is stored while a part of it is shown. -/
theorem stored_is_not_shown : ∃ (strokes : List Stroke) (x : Double),
    (initial.struck strokes).state.inputBuffer ≠ "" ∧
      ((initial.struck strokes).strike (.key .memoryStore)).reply = .ok .nothing ∧
      ((initial.struck strokes).strike (.key .memoryStore)).state.memory.value = x ∧
      ¬ (Double.ofText? (initial.struck strokes).state.inputBuffer = some x ∨
        Display.formatDouble x = .ok (initial.struck strokes).state.inputBuffer) :=
  ⟨[.key (.evaluate (some "12")), .backspace], Double.ofNat 12, by decide +kernel,
    by decide +kernel, by decide +kernel, by decide +kernel⟩

end SciCalc.Session
