import SciCalc.Proofs.Outcome
import SciCalc.Proofs.Session.Steps

/-! # Refused keys

A key is refused before it has written anything. So a session that has refused a key answers all
later keys as if the key had not been pressed, and the refused keys of a run can be left out. Only
evaluations write an error into the session, and they are no refusals here.

Some faults come after a first write. They come from the display, which never reports an error of a
calculation, and so they are no refusals either.
-/

namespace SciCalc

variable {α β : Type}

/-- The call reports no error of a calculation. -/
def NeverRefuses (call : Except Fault α) : Prop :=
  ∀ error, call ≠ .error (.calculation error)

namespace NeverRefuses

theorem ok (value : α) : NeverRefuses (.ok value) := nofun

theorem malformed : NeverRefuses (.error .malformed : Except Fault α) := nofun

theorem outOfRange : NeverRefuses (.error .outOfRange : Except Fault α) := nofun

/-- The fault of a call that reports no error of a calculation is none wherever it is passed on. -/
theorem of_error {call : Except Fault α} {fault : Fault} (hcall : NeverRefuses call)
    (hfault : call = .error fault) : NeverRefuses (.error fault : Except Fault β) := by
  intro error herror
  obtain rfl := Except.error.inj herror
  exact hcall error hfault

theorem bind {call : Except Fault α} {next : α → Except Fault β} (hcall : NeverRefuses call)
    (hnext : ∀ value, NeverRefuses (next value)) : NeverRefuses (call >>= next) := by
  intro error herror
  rcases bind_eq_error_iff.mp herror with hfirst | ⟨value, -, hsecond⟩
  · exact hcall error hfirst
  · exact hnext value error hsecond

theorem map {call : Except Fault α} (hcall : NeverRefuses call) (change : α → β) :
    NeverRefuses (change <$> call) :=
  fun error herror => hcall error (map_eq_error_iff.mp herror)

end NeverRefuses

namespace Display

theorem neverRefuses_powerOfTen (exponent : Nat) : NeverRefuses (powerOfTen exponent) := by
  unfold powerOfTen
  split
  · exact .outOfRange
  · exact .ok _

theorem neverRefuses_nearestInteger (x : Double) : NeverRefuses (nearestInteger x) := by
  unfold nearestInteger
  split
  · exact .malformed
  split
  · exact .outOfRange
  · exact .ok _

theorem neverRefuses_magnitude (x : Double) : NeverRefuses (magnitude x) := by
  unfold magnitude
  simp only
  split
  · exact .malformed
  split
  · exact .outOfRange
  · exact .ok _

theorem neverRefuses_roundAt (exponent : Int) (x : Double) (digits : Nat) :
    NeverRefuses (roundAt exponent x digits) := by
  unfold roundAt
  simp only
  split
  · apply (neverRefuses_powerOfTen _).bind
    intro power
    apply (neverRefuses_nearestInteger _).bind
    intro scaled
    exact .ok _
  · apply (neverRefuses_powerOfTen _).bind
    intro power
    apply (neverRefuses_nearestInteger _).bind
    intro scaled
    exact .ok _

theorem neverRefuses_roundDouble (x : Double) (digits : Nat) :
    NeverRefuses (roundDouble x digits) := by
  apply (neverRefuses_magnitude x).bind
  intro exponent
  exact neverRefuses_roundAt exponent x digits

theorem neverRefuses_roundToPrecision (x : Double) (digits : Int) :
    NeverRefuses (roundToPrecision (.float x) digits) := by
  simp only [roundToPrecision, Number.toDouble?]
  split
  · exact .ok _
  split
  · exact .malformed
  · exact neverRefuses_roundDouble x _

theorem neverRefuses_formatDouble (x : Double) : NeverRefuses (formatDouble x) := by
  simp only [formatDouble, format, Number.toDouble?]
  repeat' split
  all_goals first
    | exact .ok _
    | exact (neverRefuses_roundToPrecision x _).map _

end Display

namespace Memory

theorem state_of_store_failed {memory : Memory} {value : Datum} {fault : Fault}
    (hfault : (memory.store value).reply = .error fault) :
    (memory.store value).state = memory := by
  unfold store at hfault ⊢
  split at hfault
  · exact nomatch hfault
  · rfl

theorem state_of_add_failed {memory : Memory} {value : Datum} {fault : Fault}
    (hfault : (memory.add value).reply = .error fault) : (memory.add value).state = memory := by
  unfold add at hfault ⊢
  split
  · rfl
  next x hresult =>
    simp only [hresult] at hfault ⊢
    split at hfault
    · exact nomatch hfault
    next hinfinite => rw [if_neg hinfinite]

end Memory

namespace Session

variable (session : Session)

/-- The keys, other than those that evaluate into the session, that a session may refuse. -/
def Key.mayBeRefused : Key → Bool
  | .enter _ | .append _ | .evaluateValue _ | .memoryStore | .memoryAdd | .setAngleMode _ => true
  | _ => false

/-! ## Keys that are never refused -/

theorem neverRefuses_showMemory : NeverRefuses session.showMemory.reply := by
  obtain ⟨text, -, hshow⟩ | ⟨fault, hfault, hshow⟩ := showMemory_cases session
  · rw [hshow]
    exact .ok _
  · rw [hshow]
    exact (Display.neverRefuses_formatDouble _).of_error hfault

theorem neverRefuses_negateTyped (typed : String) :
    NeverRefuses (session.negateTyped typed).reply := by
  unfold negateTyped
  split
  · exact .malformed
  split
  · exact .ok _
  split
  next fault hfault => exact (Display.neverRefuses_formatDouble _).of_error hfault
  · exact .ok _

theorem neverRefuses_negateResult (value : Double) :
    NeverRefuses (session.negateResult value).reply := by
  unfold negateResult
  simp only
  split
  next fault hfault => exact (Display.neverRefuses_formatDouble _).of_error hfault
  · exact .ok _

theorem neverRefuses_negate : NeverRefuses session.negate.reply := by
  simp only [negate]
  generalize (if session.justEvaluated then "" else session.state.inputBuffer) = typed
  split
  · exact neverRefuses_negateTyped session typed
  split
  · exact neverRefuses_negateResult session _
  · exact .ok _

theorem neverRefuses_press {key : Key} (hkey : key.mayBeRefused = false)
    (hevaluate : ∀ given, key ≠ .evaluate given) : NeverRefuses (session.press key).reply := by
  cases key with
  | evaluate given => exact absurd rfl (hevaluate given)
  | memoryRecall => exact neverRefuses_showMemory session
  | negate => exact neverRefuses_negate session
  | memoryClear | clearEntry | allClear | toggleAngleMode | showAngleMode => exact .ok _
  | enter | append | evaluateValue | memoryStore | memoryAdd | setAngleMode =>
      exact absurd hkey Bool.noConfusion

/-! ## Keys that are refused before they write -/

/-- The outcome fails only if the session is left as it was. -/
def KeepsIfFailed (outcome : Outcome Session) : Prop :=
  ∀ fault, outcome.reply = .error fault → outcome.state = session

theorem keepsIfFailed_answer {reply : Datum} {next : Session} {outcome : Outcome Session}
    (houtcome : outcome = .answer reply next) : session.KeepsIfFailed outcome := by
  rw [houtcome]
  exact fun _ hfault => nomatch hfault

theorem keepsIfFailed_failed {fault : Fault} {outcome : Outcome Session}
    (houtcome : outcome = .failed fault session) : session.KeepsIfFailed outcome := by
  rw [houtcome]
  exact fun _ _ => rfl

theorem keepsIfFailed_enter (text : String) : session.KeepsIfFailed (session.enter text) := by
  obtain ⟨-, henter⟩ | ⟨-, henter⟩ := enter_cases session text
  · exact keepsIfFailed_answer session henter
  · exact keepsIfFailed_failed session henter

theorem keepsIfFailed_append (fragment : String) :
    session.KeepsIfFailed (session.append fragment) := by
  obtain ⟨depth, -, happend⟩ | ⟨-, happend⟩ := append_cases session fragment
  · exact keepsIfFailed_answer session happend
  · exact keepsIfFailed_failed session happend

theorem keepsIfFailed_withMemory {action : Memory → Datum → Outcome Memory}
    (haction : ∀ value fault, (action session.memory value).reply = .error fault →
      (action session.memory value).state = session.memory) :
    session.KeepsIfFailed (session.withMemory action) := by
  obtain ⟨value, -, hmemory⟩ | ⟨fault, -, hmemory⟩ := withMemory_cases session action
  · intro fault hfault
    rw [hmemory] at hfault ⊢
    simp only [onMemory, haction value fault hfault]
  · exact keepsIfFailed_failed session hmemory

theorem keepsIfFailed_setAngleMode (mode : Datum) :
    session.KeepsIfFailed (session.onState (session.state.setAngleMode mode)) := by
  obtain ⟨chosen, -, hmode⟩ | ⟨fault, -, hmode⟩ := session.state.setAngleMode_cases mode
  · rw [hmode]
    exact keepsIfFailed_answer session rfl
  · rw [hmode]
    exact keepsIfFailed_failed session rfl

theorem keepsIfFailed_press {key : Key} (hkey : key.mayBeRefused = true) :
    session.KeepsIfFailed (session.press key) := by
  cases key with
  | enter text => exact keepsIfFailed_enter session text
  | append fragment => exact keepsIfFailed_append session fragment
  | evaluateValue formula => exact fun _ _ => rfl
  | memoryStore =>
      exact keepsIfFailed_withMemory session fun _ _ => Memory.state_of_store_failed
  | memoryAdd => exact keepsIfFailed_withMemory session fun _ _ => Memory.state_of_add_failed
  | setAngleMode mode => exact keepsIfFailed_setAngleMode session mode
  | evaluate | memoryRecall | memoryClear | negate | clearEntry | allClear | toggleAngleMode
  | showAngleMode => exact absurd hkey Bool.noConfusion

/-! ## After a refusal -/

variable {session}

/-- Only keys that check before they write report an error of a calculation, evaluations of the
session apart. -/
theorem state_of_refused {key : Key} {error : CalcError}
    (hevaluate : ∀ given, key ≠ .evaluate given)
    (hrefused : (session.press key).reply = .error (.calculation error)) :
    key.mayBeRefused = true ∧ (session.press key).state = session := by
  have hkey : key.mayBeRefused = true := by
    by_contra hnever
    rw [Bool.not_eq_true] at hnever
    exact neverRefuses_press session hnever hevaluate error hrefused
  exact ⟨hkey, keepsIfFailed_press session hkey _ hrefused⟩

/-- A refused key changes nothing in the session. Whatever keys follow, they are answered, and they
leave the session, as if it had not been pressed. -/
theorem refused_key_changes_nothing {key : Key} {error : CalcError}
    (hevaluate : ∀ given, key ≠ .evaluate given)
    (hrefused : (session.press key).reply = .error (.calculation error)) :
    key.mayBeRefused = true ∧ (session.press key).state = session ∧
      ∀ later, (session.press key).state.outcomes later = session.outcomes later ∧
        (session.press key).state.after later = session.after later := by
  obtain ⟨hkey, hstate⟩ := state_of_refused hevaluate hrefused
  refine ⟨hkey, hstate, ?_⟩
  intro later
  rw [hstate]
  exact ⟨rfl, rfl⟩

/-- A sum beyond the range is refused while a result is on display; the result stays on display,
and the memory keeps its number. -/
theorem refused_key_changes_nothing_beyond_range :
    ((initial.after [.evaluate (some "1.5e308"), .memoryStore]).press .memoryAdd).reply =
        .error (.calculation (.ofKind .overflow)) ∧
      ((initial.after [.evaluate (some "1.5e308"), .memoryStore]).press .memoryAdd).state =
        initial.after [.evaluate (some "1.5e308"), .memoryStore] ∧
      (initial.after [.evaluate (some "1.5e308"), .memoryStore, .memoryAdd]).outcomes
          [.append "/3", .evaluate none] =
        (initial.after [.evaluate (some "1.5e308"), .memoryStore]).outcomes
          [.append "/3", .evaluate none] := by
  have hrefused : ((initial.after [.evaluate (some "1.5e308"), .memoryStore]).press
      .memoryAdd).reply = .error (.calculation (.ofKind .overflow)) := by decide +kernel
  obtain ⟨-, hstate, hlater⟩ := refused_key_changes_nothing (by simp) hrefused
  exact ⟨hrefused, hstate, (hlater [.append "/3", .evaluate none]).1⟩

/-! ## Runs without their refusals -/

/-- Whether a key that is no evaluation of the session reports an error of a calculation. -/
def isRefusal : Key × Outcome Session → Bool
  | (.evaluate _, _) => false
  | (_, ⟨.error (.calculation _), _, _⟩) => true
  | _ => false

/-- The keys of a history that are not refused. -/
def kept (steps : List (Key × Outcome Session)) : List Key :=
  (steps.filter fun step => !isRefusal step).map Prod.fst

theorem exists_error_of_isRefusal {key : Key} {outcome : Outcome Session}
    (hrefusal : isRefusal (key, outcome) = true) :
    (∀ given, key ≠ .evaluate given) ∧
      ∃ error, outcome.reply = .error (.calculation error) := by
  obtain ⟨reply, state, records⟩ := outcome
  rcases reply with (error | _ | _ | _) | value
  · refine ⟨?_, error, rfl⟩
    rintro given rfl
    exact absurd hrefusal Bool.false_ne_true
  all_goals cases key <;> exact absurd hrefusal Bool.false_ne_true

/-- The refused keys can be left out of a run: the other keys answer as they did, and the run ends
in the same session. -/
theorem history_kept (keys : List Key) :
    session.history (kept (session.history keys)) =
        (session.history keys).filter (fun step => !isRefusal step) ∧
      session.after (kept (session.history keys)) = session.after keys := by
  induction keys generalizing session with
  | nil => exact ⟨rfl, rfl⟩
  | cons key rest ih =>
      by_cases hrefusal : isRefusal (key, session.press key) = true
      · obtain ⟨hevaluate, error, hrefused⟩ := exists_error_of_isRefusal hrefusal
        obtain ⟨-, hstate⟩ := state_of_refused hevaluate hrefused
        have hkept : kept (session.history (key :: rest)) = kept (session.history rest) := by
          rw [history_cons, hstate, kept, List.filter_cons_of_neg (by simp [hrefusal]), kept]
        rw [hkept, history_cons, List.filter_cons_of_neg (by simp [hrefusal]), after, hstate]
        exact ih
      · have hkept : kept (session.history (key :: rest)) =
            key :: kept ((session.press key).state.history rest) := by
          rw [history_cons, kept, List.filter_cons_of_pos (by simp [hrefusal]), List.map_cons, kept]
        obtain ⟨hhistory, hafter⟩ := @ih (session.press key).state
        rw [hkept, history_cons, history_cons, List.filter_cons_of_pos (by simp [hrefusal]),
          ← hhistory]
        exact ⟨rfl, hafter⟩

end Session

end SciCalc
