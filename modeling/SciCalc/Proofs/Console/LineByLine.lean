import SciCalc.Console
import SciCalc.Proofs.Display.Totality
import SciCalc.Proofs.Formula.Meaning
import SciCalc.Proofs.Formula.Messages
import SciCalc.Proofs.Session.Steps

/-! # The console answers line by line

What the console answers to a line depends on the angle mode and, if the precise calculator
answers, on the digits that this one starts with. No answer changes either. So every line that the
console hears is answered as a new console would answer it, however the lines before it came out,
and the answer is one line that looks like an error exactly if it is one.
-/

namespace SciCalc

open Text

/-! ## One evaluation -/

/-- The call answers with a text without blank characters, or reports an error whose message keeps
to one line. -/
inductive Speaks : Except Fault Datum → Prop where
  | result {text : String} (htext : IsUnbroken text.toList) : Speaks (.ok (.text text))
  | error {error : CalcError} (hmessage : IsLine error.message) :
      Speaks (.error (.calculation error))

/-- A call speaks if it reports lines and shows its value without blank characters. -/
theorem speaks_bind {α : Type} {call : Except Fault α} {shown : α → Except Fault Datum}
    (hcall : ReportsLines call)
    (hshown : ∀ value, ∃ text : String, shown value = .ok (.text text) ∧ IsUnbroken text.toList) :
    Speaks (call >>= shown) := by
  cases hvalue : call with
  | error fault =>
      obtain ⟨error, rfl, hmessage⟩ := hcall fault hvalue
      exact .error hmessage
  | ok value =>
      obtain ⟨text, htext, hunbroken⟩ := hshown value
      rw [bind_ok, htext]
      exact .result hunbroken

namespace Session

theorem angleMode_evaluate (session : Session) (given : Option String) :
    (session.evaluate given).state.state.angleMode = session.state.angleMode := by
  simp only [evaluate]
  split
  · rfl
  · rfl
  split
  · rfl
  split
  next hfinite => rw [showResult_eq session hfinite]; rfl
  · rfl

theorem records_evaluate {first second : Session}
    (hmode : first.state.angleMode = second.state.angleMode) (formula : String) :
    (first.evaluate (some formula)).records = (second.evaluate (some formula)).records := by
  have hvalue : first.evaluateValue formula = second.evaluateValue formula := by
    rw [evaluateValue, evaluateValue, hmode]
  simp only [evaluate, Option.getD_some, hvalue, hmode]
  split
  · rfl
  · rfl
  split
  · rfl
  split
  next hfinite => rw [showResult_eq first hfinite, showResult_eq second hfinite]
  · rfl

theorem speaks_evaluate (session : Session) (formula : String) :
    Speaks (session.evaluate (some formula)).reply := by
  rw [evaluate_reply]
  refine speaks_bind ?_ fun value => ?_
  · have hlines := Formula.reportsLines_evaluateIn Standard.readsNumerals Standard.reportsListed
      (.text session.state.angleMode.name) formula
    rwa [Formula.evaluateIn_text_name] at hlines
  · obtain ⟨text, htext⟩ := Display.exists_formatDouble value
    exact ⟨text, by rw [htext]; rfl, Display.isUnbroken_format htext⟩

end Session

namespace PreciseCalculator

theorem initialDigits_evaluate (calculator : PreciseCalculator) (formula : String) (mode : Datum) :
    (calculator.evaluate formula mode).state.initialDigits = calculator.initialDigits := by
  have hstate := (apply_eq calculator (.evaluate formula mode)).2
  rw [apply] at hstate
  rw [hstate]
  cases calculator.attempt (.evaluate formula mode) <;> rfl

theorem records_evaluate (calculator : PreciseCalculator) (formula : String) (mode : Datum) :
    (calculator.evaluate formula mode).records = [] := by
  unfold evaluate
  split
  · rfl
  · unfold compute
    dsimp only
    split <;> rfl

theorem speaks_evaluate (calculator : PreciseCalculator) (formula : String) (mode : Datum) :
    Speaks (calculator.evaluate formula mode).reply := by
  rw [evaluate_reply, map_eq_pure_bind]
  refine speaks_bind (Formula.reportsLines_evaluateIn (Precise.readsNumerals _)
    (Precise.reportsListed _) mode formula) fun value => ?_
  exact ⟨_, rfl, Precise.isUnbroken_format value calculator.initialDigits⟩

end PreciseCalculator

/-! ## One line -/

/-- Whether a line of output looks like an error. -/
def isErrorLine (line : String) : Bool := "Error: ".toList.isPrefixOf line.toList

theorem isErrorLine_of_isUnbroken {text : String} (htext : IsUnbroken text.toList) :
    isErrorLine text = false := by
  rw [isErrorLine, ← Bool.not_eq_true, List.isPrefixOf_iff_prefix]
  exact fun hbegins => absurd (htext ' ' (hbegins.subset (by decide))) (by decide)

theorem isErrorLine_error (message : String) : isErrorLine ("Error: " ++ message) = true := by
  rw [isErrorLine, List.isPrefixOf_iff_prefix, String.toList_append]
  exact List.prefix_append _ _

namespace Transcript

theorem text_append (first second : Transcript) :
    (first.append second).text = first.text ++ second.text := by
  simp [text, append, String.join_append]

theorem text_written (records : List Record) (text : String) (errors : Nat) :
    (⟨records.map .reported ++ [.written text], errors⟩ : Transcript).text = text := by
  simp [Transcript.text, List.filterMap_map]

@[simp] theorem append_empty (transcript : Transcript) : transcript.append .empty = transcript := by
  simp [append, empty]

@[simp] theorem empty_append (transcript : Transcript) :
    Transcript.empty.append transcript = transcript := by
  simp [append, empty]

theorem append_assoc (first second third : Transcript) :
    (first.append second).append third = first.append (second.append third) := by
  simp [append, Nat.add_assoc]

/-- The transcript consists of the given line, which is counted as an error if it looks like
one. -/
structure Answers (transcript : Transcript) (line : String) : Prop where
  isLine : IsLine line
  text : transcript.text = line ++ "\n"
  errors : transcript.errors = if isErrorLine line then 1 else 0

end Transcript

namespace Console

/-- What the console answers to a formula. -/
def answer (console : Console) (formula : String) : Except Fault Transcript :=
  transcribe (console.respond formula).reply (console.respond formula).records

theorem exists_transcribe {reply : Except Fault Datum} (hspeaks : Speaks reply)
    (records : List Record) :
    ∃ transcript line, transcribe reply records = .ok transcript ∧ transcript.Answers line := by
  cases hspeaks with
  | @result text htext =>
      refine ⟨_, text, rfl, htext.isLine, Transcript.text_written _ _ _, ?_⟩
      rw [isErrorLine_of_isUnbroken htext]
      rfl
  | @error error hmessage =>
      refine ⟨_, "Error: " ++ error.message, rfl, ?_, Transcript.text_written _ _ _, ?_⟩
      · exact isLine_append.mpr ⟨by decide, hmessage⟩
      · rw [isErrorLine_error]
        rfl

theorem exists_answer (console : Console) (formula : String) :
    ∃ transcript line, console.answer formula = .ok transcript ∧ transcript.Answers line := by
  refine exists_transcribe ?_ _
  unfold respond
  split
  · exact PreciseCalculator.speaks_evaluate _ _ _
  · exact Session.speaks_evaluate _ _

/-! ## The setting -/

/-- What the answers of a console depend on: its angle mode, and the digits that the precise
calculator starts with if that one answers. -/
def setting (console : Console) : AngleMode × Option Nat :=
  (console.session.state.angleMode, console.precise.map (·.initialDigits))

theorem setting_respond (console : Console) (formula : String) :
    (console.respond formula).state.setting = console.setting := by
  obtain ⟨session, precise⟩ := console
  cases precise with
  | none => simp [respond, setting, Session.angleMode_evaluate]
  | some calculator => simp [respond, setting, PreciseCalculator.initialDigits_evaluate]

theorem answer_congr {first second : Console} (hsetting : first.setting = second.setting)
    (formula : String) : first.answer formula = second.answer formula := by
  obtain ⟨session, precise⟩ := first
  obtain ⟨otherSession, otherPrecise⟩ := second
  obtain ⟨hmode, hdigits⟩ : session.state.angleMode = otherSession.state.angleMode ∧
      precise.map (·.initialDigits) = otherPrecise.map (·.initialDigits) := Prod.mk.inj hsetting
  cases precise with
  | none =>
      obtain rfl : otherPrecise = none := by simpa using hdigits.symm
      have hvalue : session.evaluateValue formula = otherSession.evaluateValue formula := by
        rw [Session.evaluateValue, Session.evaluateValue, hmode]
      simp only [answer, respond, Session.evaluate_reply, hvalue,
        Session.records_evaluate hmode]
  | some calculator =>
      obtain ⟨other, rfl, hother⟩ := Option.map_eq_some_iff.mp hdigits.symm
      simp only [answer, respond, PreciseCalculator.evaluate_reply,
        PreciseCalculator.records_evaluate, hother, hmode]

/-! ## Many lines -/

theorem run_of_blank (console : Console) {line : String} (hblank : (trim line).isEmpty = true)
    (rest : List String) : console.run (line :: rest) = console.run rest := by
  rw [run, if_pos hblank]

theorem isEmpty_of_isFarewell {formula : String} (hfarewell : isFarewell formula = true) :
    formula.isEmpty = false := by
  rw [← Bool.not_eq_true, String.isEmpty_iff]
  rintro rfl
  exact absurd hfarewell (by decide)

theorem run_of_farewell (console : Console) {line : String}
    (hfarewell : isFarewell (trim line) = true) (rest : List String) :
    console.run (line :: rest) = .ok .empty := by
  simp [run, isEmpty_of_isFarewell hfarewell, hfarewell]

/-- Consoles with the same setting give the same transcript. -/
theorem run_congr {first second : Console} (hsetting : first.setting = second.setting)
    (lines : List String) : first.run lines = second.run lines := by
  induction lines generalizing first second with
  | nil => rfl
  | cons line rest ih =>
      have hanswer := answer_congr hsetting (trim line)
      rw [answer, answer] at hanswer
      have hlater : (first.respond (trim line)).state.run rest =
          (second.respond (trim line)).state.run rest :=
        ih (by rw [setting_respond, setting_respond, hsetting])
      simp only [run, hanswer, hlater, ih hsetting]

/-- A line that the console hears is answered, and the lines behind it are run as if it had not
been there. -/
theorem run_of_heard (console : Console) {line : String} (hblank : (trim line).isEmpty = false)
    (hstays : isFarewell (trim line) = false) (rest : List String) :
    console.run (line :: rest) = do
      let first ← console.answer (trim line)
      let others ← console.run rest
      return first.append others := by
  rw [← run_congr (setting_respond console (trim line)) rest]
  simp [run, hblank, hstays, answer]

/-- Lines from a word of farewell on have no effect. -/
theorem run_append_farewell (console : Console) (lines : List String) {farewell : String}
    (hfarewell : isFarewell (trim farewell) = true) (rest : List String) :
    console.run (lines ++ farewell :: rest) = console.run lines := by
  induction lines with
  | nil => exact console.run_of_farewell hfarewell rest
  | cons line lines ih =>
      rw [List.cons_append]
      cases hblank : (trim line).isEmpty with
      | true => rw [run_of_blank _ hblank, run_of_blank _ hblank, ih]
      | false =>
          cases hstays : isFarewell (trim line) with
          | true => rw [run_of_farewell _ hstays, run_of_farewell _ hstays]
          | false => rw [run_of_heard _ hblank hstays, run_of_heard _ hblank hstays, ih]

/-- Without a word of farewell, lines that follow are run as by a console of their own. -/
theorem run_append (console : Console) {lines : List String}
    (hstays : ∀ line ∈ lines, isFarewell (trim line) = false) (others : List String) :
    console.run (lines ++ others) = do
      let first ← console.run lines
      let second ← console.run others
      return first.append second := by
  induction lines with
  | nil =>
      rw [List.nil_append, run, bind_ok]
      simp
  | cons line lines ih =>
      obtain ⟨hline, hlines⟩ := List.forall_mem_cons.mp hstays
      rw [List.cons_append]
      cases hblank : (trim line).isEmpty with
      | true => rw [run_of_blank _ hblank, run_of_blank _ hblank, ih hlines]
      | false =>
          simp only [run_of_heard _ hblank hline, ih hlines, bind_assoc, pure_bind,
            Transcript.append_assoc]

/-! ## What is heard -/

/-- The lines that a console answers: those before a word of farewell that are not blank. -/
def heard (lines : List String) : List String :=
  (lines.takeWhile fun line => !isFarewell (trim line)).filter fun line => !(trim line).isEmpty

theorem heard_of_blank {line : String} (hblank : (trim line).isEmpty = true)
    (rest : List String) : heard (line :: rest) = heard rest := by
  have hstays : isFarewell (trim line) = false := by
    rw [String.isEmpty_iff.mp hblank]
    decide
  simp [heard, hblank, hstays]

theorem heard_of_farewell {line : String} (hfarewell : isFarewell (trim line) = true)
    (rest : List String) : heard (line :: rest) = [] := by
  simp [heard, hfarewell]

theorem heard_of_heard {line : String} (hblank : (trim line).isEmpty = false)
    (hstays : isFarewell (trim line) = false) (rest : List String) :
    heard (line :: rest) = line :: heard rest := by
  simp [heard, hblank, hstays]

/-- The line is what the console prints when it is given the one line alone. -/
def PrintsAlone (console : Console) (line printed : String) : Prop :=
  ∃ transcript, console.run [line] = .ok transcript ∧ transcript.Answers printed

/-- A run prints, for the lines that are heard, what the console prints for each of them alone. -/
theorem exists_run (console : Console) (lines : List String) :
    ∃ transcript printed, console.run lines = .ok transcript ∧
      List.Forall₂ console.PrintsAlone (heard lines) printed ∧
      transcript.text = String.join (printed.map (· ++ "\n")) ∧
      transcript.errors = printed.countP isErrorLine := by
  induction lines with
  | nil => exact ⟨.empty, [], rfl, .nil, rfl, rfl⟩
  | cons line rest ih =>
      cases hblank : (trim line).isEmpty with
      | true => rwa [run_of_blank _ hblank, heard_of_blank hblank]
      | false =>
          cases hstays : isFarewell (trim line) with
          | true =>
              rw [run_of_farewell _ hstays, heard_of_farewell hstays]
              exact ⟨.empty, [], rfl, .nil, rfl, rfl⟩
          | false =>
              obtain ⟨others, printed, hothers, hprinted, htext, herrors⟩ := ih
              obtain ⟨first, answer, hfirst, hanswers⟩ := console.exists_answer (trim line)
              have halone : console.PrintsAlone line answer :=
                ⟨first, by rw [run_of_heard _ hblank hstays, hfirst]; simp [run], hanswers⟩
              rw [run_of_heard _ hblank hstays, hfirst, hothers, heard_of_heard hblank hstays]
              refine ⟨first.append others, answer :: printed, rfl, .cons halone hprinted, ?_, ?_⟩
              · rw [Transcript.text_append, hanswers.text, htext, List.map_cons, String.join_cons]
              · rw [Transcript.append, hanswers.errors, herrors, List.countP_cons, Nat.add_comm]

theorem runLines_name (lines : List String) (mode : AngleMode) (precise : Bool) (digits : Int) :
    runLines lines (.text mode.name) precise digits = (create mode precise digits).run lines := by
  rw [runLines, Formula.ofDatum_text_name, bind_ok]

/-- Either calculator evaluates every line on its own. For each line that is heard, in order, one
line is printed, and it is what a new console prints for that line alone; the errors counted are the
lines that look like errors; lines from a word of farewell on have no effect. So lines that hold no
such word can be run apart from those behind them. -/
theorem runs_line_by_line (mode : AngleMode) (precise : Bool) (digits : Int)
    (lines : List String) :
    (∃ transcript printed, runLines lines (.text mode.name) precise digits = .ok transcript ∧
      List.Forall₂ (fun line answer => ∃ alone,
          runLines [line] (.text mode.name) precise digits = .ok alone ∧ alone.Answers answer)
        (heard lines) printed ∧
      transcript.text = String.join (printed.map (· ++ "\n")) ∧
      transcript.errors = printed.countP isErrorLine) ∧
    (∀ farewell rest, isFarewell (trim farewell) = true →
      runLines (lines ++ farewell :: rest) (.text mode.name) precise digits =
        runLines lines (.text mode.name) precise digits) ∧
    ∀ others, (∀ line ∈ lines, isFarewell (trim line) = false) →
      ∃ first second both, runLines lines (.text mode.name) precise digits = .ok first ∧
        runLines others (.text mode.name) precise digits = .ok second ∧
        runLines (lines ++ others) (.text mode.name) precise digits = .ok both ∧
        both.text = first.text ++ second.text ∧ both.errors = first.errors + second.errors := by
  simp only [runLines_name]
  refine ⟨exists_run _ lines, fun farewell rest hfarewell => run_append_farewell _ lines hfarewell
    rest, fun others hstays => ?_⟩
  obtain ⟨first, -, hfirst, -⟩ := exists_run (create mode precise digits) lines
  obtain ⟨second, -, hsecond, -⟩ := exists_run (create mode precise digits) others
  have hboth : (create mode precise digits).run (lines ++ others) = .ok (first.append second) := by
    rw [run_append _ hstays, hfirst, hsecond]
    rfl
  exact ⟨first, second, _, hfirst, hsecond, hboth, first.text_append second, rfl⟩

/-- An error between two values is one line of its own, and the word of farewell hides what stands
behind it. -/
theorem runs_line_by_line_around_error :
    (fun transcript => (transcript.text, transcript.errors)) <$>
        runLines ["2+2", " ", "1/0", "3"] (.text "deg") false 30 =
      .ok ("4\nError: División por cero\n3\n", 1) ∧
    runLines ["2+2", " ", "1/0", " SALIR ", "3"] (.text "deg") false 30 =
      runLines ["2+2", " ", "1/0"] (.text "deg") false 30 ∧
    ∃ first second both, runLines ["2+2", " ", "1/0"] (.text "deg") false 30 = .ok first ∧
      runLines ["3"] (.text "deg") false 30 = .ok second ∧
      runLines ["2+2", " ", "1/0", "3"] (.text "deg") false 30 = .ok both ∧
      both.text = first.text ++ second.text ∧ both.errors = first.errors + second.errors := by
  obtain ⟨-, hfarewell, hstays⟩ := runs_line_by_line .degrees false 30 ["2+2", " ", "1/0"]
  exact ⟨by decide +kernel, hfarewell " SALIR " ["3"] (by decide +kernel),
    hstays ["3"] (by decide +kernel)⟩

end Console

end SciCalc
