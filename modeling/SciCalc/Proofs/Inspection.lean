import SciCalc.Proofs.Display.Totality
import SciCalc.Proofs.Formula.Meaning
import SciCalc.Proofs.Formula.Rejection
import SciCalc.SelfCheck

/-! # How an inspection ends

An inspection evaluates a formula twice. It reports an error of the first evaluation, in doubles, in
a line of its own, and the value that comes of it always has a display text. Nothing is made of an
error of the second evaluation, by the precise calculator, and the two can differ: a divisor or an
argument can be zero or have another sign with more digits.
-/

namespace SciCalc.SelfCheck

/-- The lines of an inspection about the formula itself: the formula, the mode, and the stages that
it passes before it is evaluated. -/
def stageLines (formula : String) (mode : AngleMode) : List String :=
  let opening := ["Expression inspection", "expr:           " ++ formula,
    "angle mode:     " ++ mode.name]
  match Token.tokenize formula with
  | .error _ => opening
  | .ok tokens =>
    let scanned := opening ++ ["tokens:         " ++ tokenLine tokens]
    match Token.toPostfix tokens with
    | .error _ => scanned
    | .ok ordered => scanned ++ ["postfix:        " ++ tokenLine ordered]

/-- The lines of an inspection about a value: the value itself and its display. -/
def valueLines (value : Double) (display : String) : List String :=
  ["value:          " ++ value.toText, "display:        " ++ display]

/-- The line of an inspection about the precise calculator. -/
def preciseLine (precise : String) : String := "precise:        " ++ precise

variable (formula : String) (mode : AngleMode) (digits : Int)

/-- An inspection is the lines of the stages and what is made of the value in doubles. -/
theorem inspect_eq :
    inspect formula mode digits =
      stage (stageLines formula mode) (Formula.evaluate Standard.arithmetic mode formula)
        fun value =>
          unguardedStage (stageLines formula mode ++ ["value:          " ++ value.toText])
            (Display.formatDouble value) fun display =>
              unguardedStage (stageLines formula mode ++ valueLines value display)
                (preciseText formula mode digits) fun precise =>
                  ⟨stageLines formula mode ++ valueLines value display ++ [preciseLine precise],
                    none⟩ := by
  simp only [inspect, stageLines, valueLines, preciseLine, stage, unguardedStage, Formula.evaluate]
  cases Token.tokenize formula with
  | error fault => cases fault <;> rfl
  | ok tokens =>
      simp only [bind_ok]
      cases Token.toPostfix tokens with
      | error fault => cases fault <;> rfl
      | ok ordered => simp only [bind_ok, List.cons_append, List.nil_append]

variable {formula mode digits}

theorem inspect_of_error {error : CalcError}
    (herror : Formula.evaluate Standard.arithmetic mode formula = .error (.calculation error)) :
    inspect formula mode digits = ⟨stageLines formula mode ++ [errorLine error], none⟩ := by
  rw [inspect_eq, herror, stage]

/-- With a value in doubles, the inspection goes as the precise calculator does: behind the lines about
the value stands its answer, or there the inspection breaks off. -/
theorem inspect_of_value {value : Double} {display : String}
    (hvalue : Formula.evaluate Standard.arithmetic mode formula = .ok value)
    (hdisplay : Display.formatDouble value = .ok display) :
    inspect formula mode digits =
      unguardedStage (stageLines formula mode ++ valueLines value display)
        (preciseText formula mode digits) fun precise =>
          ⟨stageLines formula mode ++ valueLines value display ++ [preciseLine precise], none⟩ := by
  rw [inspect_eq, hvalue, stage, hdisplay]
  rfl

/-- For a formula that has a value in doubles, the precise calculator has one too or reports the
error of an operation. -/
theorem preciseText_cases {value : Double}
    (hvalue : Formula.evaluate Standard.arithmetic mode formula = .ok value) :
    (∃ text, preciseText formula mode digits = .ok text) ∨
      Rejects operationKinds (preciseText formula mode digits) := by
  have hstandard : Formula.evaluateIn Standard.arithmetic (.text mode.name) formula = .ok value := by
    rw [Formula.evaluateIn, Formula.ofDatum_text_name, bind_ok, hvalue]
  cases hprepare : Formula.prepare (.text mode.name) formula with
  | error fault =>
      rw [Formula.evaluateIn_eq, hprepare] at hstandard
      cases hstandard
  | ok prepared =>
      obtain ⟨hillFormed, -⟩ :=
        Formula.rejects_of_prepare Standard.readsNumerals Standard.blamesOperations hprepare
      obtain ⟨-, hwellFormed⟩ := Formula.rejects_of_prepare (Precise.readsNumerals _)
        (Precise.blamesOperations (PreciseCalculator.places
          (PreciseCalculator.create digits digits).initialDigits)) hprepare
      have hformed : Formula.WellFormed prepared.2 := by
        by_contra hnot
        obtain ⟨error, herror, -⟩ := hillFormed hnot
        rw [hstandard] at herror
        cases herror
      rw [preciseText, PreciseCalculator.evaluate_reply]
      rcases hwellFormed hformed with ⟨x, hx⟩ | hrejects
      · left
        rw [hx]
        exact ⟨_, rfl⟩
      · right
        exact (hrejects.map _).bind _

variable (formula mode digits)

/-- An inspection ends normally in two ways: with the error of the evaluation in doubles in a line,
or with the value, its display and the text of the precise calculator. It breaks off if there is a
value in doubles and the precise calculator reports an error, which is that of an operation; then the
value and its display are the last that it has printed. -/
theorem inspect_cases :
    (∃ error, Formula.evaluate Standard.arithmetic mode formula = .error (.calculation error) ∧
      inspect formula mode digits = ⟨stageLines formula mode ++ [errorLine error], none⟩) ∨
    ∃ value display, Formula.evaluate Standard.arithmetic mode formula = .ok value ∧
      Display.formatDouble value = .ok display ∧
      ((∃ precise, preciseText formula mode digits = .ok precise ∧
          inspect formula mode digits =
            ⟨stageLines formula mode ++ valueLines value display ++ [preciseLine precise],
              none⟩) ∨
        ∃ error, preciseText formula mode digits = .error (.calculation error) ∧
          error.kind ∈ operationKinds ∧
          inspect formula mode digits =
            ⟨stageLines formula mode ++ valueLines value display,
              some (.calculation error)⟩) := by
  cases hvalue : Formula.evaluate Standard.arithmetic mode formula with
  | error fault =>
      obtain ⟨error, rfl⟩ := Formula.failsAsCalculation_evaluate Formula.readsDoubles_standard mode
        formula fault hvalue
      exact .inl ⟨error, rfl, inspect_of_error hvalue⟩
  | ok value =>
      obtain ⟨display, hdisplay⟩ := Display.exists_formatDouble value
      refine .inr ⟨value, display, rfl, hdisplay, ?_⟩
      rw [inspect_of_value hvalue hdisplay]
      rcases preciseText_cases hvalue with ⟨text, htext⟩ | ⟨error, herror, hkind⟩
      · exact .inl ⟨text, htext, by rw [htext]; rfl⟩
      · exact .inr ⟨error, herror, hkind, by rw [herror]; rfl⟩

/-- In doubles `1e20+1-1e20-1` is -1, and precisely it is zero: the inspection of its reciprocal
breaks off with the division by zero behind the display of the value, and the program with it. -/
theorem inspect_breaks_off :
    Formula.evaluate Standard.arithmetic .degrees "1/(1e20+1-1e20-1)" =
        .ok (Double.ofInt (-1)) ∧
      inspect "1/(1e20+1-1e20-1)" .degrees 30 =
        ⟨["Expression inspection", "expr:           1/(1e20+1-1e20-1)", "angle mode:     deg",
            "tokens:         1 / ( 1e20 + 1 - 1e20 - 1 )",
            "postfix:        1 1e20 1 + 1e20 - 1 - /", "value:          -1.0",
            "display:        -1"],
          some (.calculation (.ofKind .divisionByZero))⟩ ∧
      SelfCheck.main ["--inspect", "1/(1e20+1-1e20-1)"] =
        .error (.calculation (.ofKind .divisionByZero)) := by
  decide +kernel

end SciCalc.SelfCheck
