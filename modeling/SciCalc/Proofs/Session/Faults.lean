import SciCalc.Proofs.Session.Strokes

/-! # Faults of strokes

Every key reports an error of the calculation if it fails, but for one: a change of sign reads the
text on display, and so it fails on a text that cannot be read. Only backspace leaves such a text,
when it takes digits of a power of ten away and not its sign, or letters of the word for infinity.
-/

namespace SciCalc.Session

variable {session : Session}

theorem failsAsCalculation_currentValue : FailsAsCalculation session.currentValue := by
  unfold currentValue
  split
  · exact .ok _
  split
  · exact .ok _
  split
  · exact .ok _
  · exact .fail _

theorem failsAsCalculation_withMemory {action : Memory → Datum → Outcome Memory}
    (haction : ∀ value, FailsAsCalculation (action session.memory value).reply) :
    FailsAsCalculation (session.withMemory action).reply := by
  obtain ⟨value, -, hmemory⟩ | ⟨fault, hfault, hmemory⟩ := withMemory_cases session action
  · rw [hmemory]
    exact haction value
  · rw [hmemory]
    obtain ⟨error, rfl⟩ := failsAsCalculation_currentValue fault hfault
    exact .error error

theorem failsAsCalculation_evaluateValue (formula : String) :
    FailsAsCalculation (session.evaluateValue formula) :=
  Formula.failsAsCalculation_evaluate Formula.readsDoubles_standard _ formula

/-- Every key but the change of sign reports an error of the calculation, if it fails. -/
theorem failsAsCalculation_press {key : Key} (hkey : key ≠ .negate) :
    FailsAsCalculation (session.press key).reply := by
  cases key with
  | enter text =>
      obtain ⟨-, henter⟩ | ⟨-, henter⟩ := enter_cases session text
      · rw [press, henter]
        exact .ok _
      · rw [press, henter]
        exact .error _
  | append fragment =>
      obtain ⟨depth, -, happend⟩ | ⟨-, happend⟩ := append_cases session fragment
      · rw [press, happend]
        exact .ok _
      · rw [press, happend]
        exact .error _
  | evaluate given =>
      have hgiven : session.evaluate given =
          session.evaluate (some (given.getD session.pendingFormula)) := by cases given <;> rfl
      rw [press, hgiven, evaluate_reply]
      refine (failsAsCalculation_evaluateValue _).bind fun x _ => ?_
      obtain ⟨text, htext⟩ := Display.exists_formatDouble x
      rw [htext]
      exact .ok _
  | evaluateValue formula => exact (failsAsCalculation_evaluateValue formula).map _
  | memoryStore =>
      refine failsAsCalculation_withMemory fun value => ?_
      unfold Memory.store
      split
      · exact .ok _
      · exact .error _
  | memoryAdd =>
      refine failsAsCalculation_withMemory fun value => ?_
      unfold Memory.add
      split
      · exact .error _
      · simp only
        split
        · exact .ok _
        · exact .error _
  | memoryRecall =>
      obtain ⟨text, -, hshow⟩ | ⟨fault, hfault, -⟩ := showMemory_cases session
      · rw [press, hshow]
        exact .ok _
      · obtain ⟨text, htext⟩ := Display.exists_formatDouble session.memory.value
        rw [htext] at hfault
        exact nomatch hfault
  | setAngleMode mode =>
      obtain ⟨chosen, -, hmode⟩ | ⟨fault, hfault, hmode⟩ := session.state.setAngleMode_cases mode
      · rw [press, hmode]
        exact .ok _
      · rw [press, hmode]
        obtain ⟨error, rfl⟩ := Formula.failsAsCalculation_ofDatum mode fault hfault
        exact .error error
  | negate => exact absurd rfl hkey
  | memoryClear | clearEntry | allClear | toggleAngleMode | showAngleMode => exact .ok _

theorem failsAsCalculation_negateTyped {typed : String} (hread : Double.ofText? typed ≠ none) :
    FailsAsCalculation (session.negateTyped typed).reply := by
  rcases session.negateTyped_cases typed with
    ⟨value, -, hkept | ⟨text, -, hshown⟩⟩ | ⟨hnone, -⟩
  · rw [hkept]
    exact .ok _
  · rw [hshown]
    exact .ok _
  · exact absurd hnone hread

/-- A change of sign fails only on a text that breaks off. -/
theorem failsAsCalculation_negate {count : Nat} (hsession : Edited count session)
    (hwhole : session.justEvaluated = false → ¬ BreaksOff session.state.inputBuffer) :
    FailsAsCalculation session.negate.reply := by
  rcases typed_cases hsession.begins_typed with hnone | hunfinished | hbroken | ⟨x, hx, -⟩
  · cases hresult : session.state.lastResult with
    | none =>
        rw [negate_of_unfinished (.inl ⟨hnone, hresult⟩)]
        exact .ok _
    | some value =>
        obtain ⟨text, -, hnegate⟩ :=
          exists_negate_result hnone hresult (hsession.lastResult_finite value hresult)
        rw [hnegate]
        exact .ok _
  · rw [negate_of_unfinished (.inr hunfinished)]
    exact .ok _
  · have hmark := hsession.justEvaluated_eq_false (.inl hbroken.ne_empty)
    rw [numberTyped, hmark] at hbroken
    exact absurd hbroken (hwhole hmark)
  · by_cases hfinished : session.numberTyped ∈ unfinished
    · rw [negate_of_unfinished (.inr hfinished)]
      exact .ok _
    · have htyped : session.numberTyped ≠ "" := by
        intro hnone
        have hempty : Double.ofText? "" = none := by decide +kernel
        rw [hnone, hempty] at hx
        exact nomatch hx
      rw [negate_of_typed htyped hfinished]
      exact failsAsCalculation_negateTyped (by simp [hx])

/-- A change of sign cannot read a text that breaks off. -/
theorem negate_of_breaksOff (hmark : session.justEvaluated = false)
    (hbroken : BreaksOff session.state.inputBuffer) :
    session.negate = .failed .malformed session := by
  have htyped : session.numberTyped = session.state.inputBuffer := by
    rw [numberTyped, hmark]
    rfl
  rw [negate_of_typed (htyped ▸ hbroken.ne_empty) (htyped ▸ hbroken.notMem_unfinished), htyped,
    negateTyped, hbroken.ofText?_eq_none]

/-! ## Without backspace -/

theorem not_breaksOff_of_isPartialInput {text : String}
    (hpartial : Display.isPartialInput text = true) : ¬ BreaksOff text := by
  intro hbroken
  obtain ⟨negative, whole, fraction, rfl, hwhole, hfraction⟩ :=
    Display.exists_digits_of_isPartialInput hpartial
  obtain ⟨c, hmem, hletter⟩ := hbroken.exists_letter
  have hdigit : c.isDigit = false ∧ c ≠ '-' ∧ c ≠ '.' := by
    have hall : ∀ c ∈ ['e', 'E', 'I'], c.isDigit = false ∧ c ≠ '-' ∧ c ≠ '.' := by simp
    exact hall c hletter
  simp only [String.toList_ofList, List.mem_append] at hmem
  rcases hmem with hsign | hdigits | hpoint
  · split at hsign
    · exact hdigit.2.1 (List.mem_singleton.mp hsign)
    · exact absurd hsign List.not_mem_nil
  · exact absurd (hwhole c hdigits) (by simp [hdigit.1])
  · cases fraction with
    | none => exact absurd hpoint List.not_mem_nil
    | some digits =>
        rcases List.mem_cons.mp hpoint with hpoint | hdigits
        · exact hdigit.2.2 hpoint
        · exact absurd (hfraction digits rfl c hdigits) (by simp [hdigit.1])

/-- The text of what is no number is no beginning of a number either. -/
theorem not_breaksOff_error : ¬ BreaksOff "Error" := by
  rintro ⟨negative, begun, htext, hbegun⟩
  have hchars : "Error".toList = (if negative then ['-'] else []) ++ begun := by
    rw [htext, String.toList_ofList]
  cases negative with
  | true => exact absurd (List.cons.inj hchars).1 (by decide)
  | false =>
      obtain rfl : "Error".toList = begun := hchars
      generalize hword : "Error".toList = cs at hbegun
      cases hbegun with
      | power spelled =>
          obtain ⟨first, rest, hfirst, hcons⟩ := spelled.exists_chars_eq_cons
          rw [hcons] at hword
          obtain rfl : 'E' = first := (List.cons.inj hword).1
          exact absurd hfirst (by decide)
      | word hbroken =>
          have hall : ∀ word ∈ brokenWords, "Error".toList ≠ word.toList := by decide
          exact hall _ hbroken hword

/-- What has been typed, and what is displayed, does not break off. -/
theorem not_breaksOff_of_isShown {text : String} (hshown : IsShown text) : ¬ BreaksOff text := by
  rcases hshown with hpartial | ⟨x, hx⟩
  · exact not_breaksOff_of_isPartialInput hpartial
  by_cases hnan : x = .nan
  · rw [hnan] at hx
    obtain rfl := Except.ok.inj hx
    exact not_breaksOff_error
  · intro hbroken
    obtain ⟨y, hy⟩ := Display.exists_ofText?_of_formatDouble hnan hx
    rw [hbroken.ofText?_eq_none] at hy
    exact nomatch hy

theorem struck_keys (session : Session) (keys : List Key) :
    session.struck (keys.map .key) = session.after keys := by
  induction keys generalizing session with
  | nil => rfl
  | cons key rest ih => exact ih _

theorem exists_keys {strokes : List Stroke} (hkeys : .backspace ∉ strokes) :
    ∃ keys : List Key, strokes = keys.map .key := by
  induction strokes with
  | nil => exact ⟨[], rfl⟩
  | cons stroke rest ih =>
      rw [List.mem_cons, not_or] at hkeys
      obtain ⟨keys, rfl⟩ := ih hkeys.2
      cases stroke with
      | key pressed => exact ⟨pressed :: keys, rfl⟩
      | backspace => exact absurd rfl hkeys.1

/-! ## Faults that escape -/

/-- Something else than an error of the calculation is reported only by a change of sign, and only
while a text that breaks off is on display as a typed number. Then it is reported, and the session
stays as it is. Without backspace no such text comes on display. -/
theorem escapes_iff_negating_broken_text (strokes : List Stroke) (stroke : Stroke) :
    ((∃ fault, ((initial.struck strokes).strike stroke).reply = .error fault ∧
        ∀ error, fault ≠ .calculation error) ↔
      stroke = .key .negate ∧ (initial.struck strokes).justEvaluated = false ∧
        BreaksOff (initial.struck strokes).state.inputBuffer) ∧
    ((initial.struck strokes).justEvaluated = false →
      BreaksOff (initial.struck strokes).state.inputBuffer →
        (initial.struck strokes).strike (.key .negate) =
          .failed .malformed (initial.struck strokes)) ∧
    (BreaksOff (initial.struck strokes).state.inputBuffer → .backspace ∈ strokes) := by
  have hsession := edited_struck strokes
  refine ⟨⟨?_, ?_⟩, negate_of_breaksOff, ?_⟩
  · rintro ⟨fault, hfault, hother⟩
    by_contra hkept
    have hcalculation : FailsAsCalculation ((initial.struck strokes).strike stroke).reply := by
      cases stroke with
      | backspace => exact .ok _
      | key pressed =>
          by_cases hnegate : pressed = .negate
          · rw [hnegate] at hkept ⊢
            exact failsAsCalculation_negate hsession
              fun hmark hbroken => hkept ⟨rfl, hmark, hbroken⟩
          · exact failsAsCalculation_press hnegate
    obtain ⟨error, herror⟩ := hcalculation fault hfault
    exact hother error herror
  · rintro ⟨rfl, hmark, hbroken⟩
    refine ⟨.malformed, ?_, nofun⟩
    rw [strike, Stroke.command, apply, press, negate_of_breaksOff hmark hbroken]
    rfl
  · intro hbroken
    by_contra hkeys
    obtain ⟨keys, rfl⟩ := exists_keys hkeys
    rw [struck_keys] at hbroken
    exact not_breaksOff_of_isShown (sound_outcomes keys).1.shown hbroken

/-- A large number is stored and recalled, and the digits of its power of ten are taken away. -/
def cutRecall : List Stroke :=
  [.key (.evaluate (some "1e10")), .key .memoryStore, .key .memoryRecall, .backspace, .backspace]

/-- The number in the memory, recalled without the digits of its power of ten, cannot be negated. -/
theorem escapes_iff_negating_broken_text_recalled :
    (initial.struck cutRecall).justEvaluated = false ∧
      BreaksOff (initial.struck cutRecall).state.inputBuffer ∧
      (initial.struck cutRecall).strike (.key .negate) =
        .failed .malformed (initial.struck cutRecall) := by
  have hmark : (initial.struck cutRecall).justEvaluated = false := by decide +kernel
  have hbroken : BreaksOff (initial.struck cutRecall).state.inputBuffer := by
    have hshown : (initial.struck cutRecall).state.inputBuffer = "1e+" := by decide +kernel
    rw [hshown]
    exact ⟨false, _, rfl, .power ⟨['1'], none, none, by simp, by simp, .inl (by simp)⟩ 'e' ['+']
      rfl (.inl rfl) (.inr (.inl rfl))⟩
  exact ⟨hmark, hbroken,
    (escapes_iff_negating_broken_text cutRecall (.key .negate)).2.1 hmark hbroken⟩

/-- Not every fault of a stroke is an error of the calculation. -/
theorem strokes_escape : ∃ (strokes : List Stroke) (stroke : Stroke) (fault : Fault),
    ((initial.struck strokes).strike stroke).reply = .error fault ∧
      ∀ error, fault ≠ .calculation error :=
  ⟨cutRecall, .key .negate, .malformed, by decide +kernel, nofun⟩

end SciCalc.Session
