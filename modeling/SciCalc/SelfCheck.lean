import SciCalc.Precise.Calculator
import SciCalc.Session.Basic

/-! # Self-checks and inspection

The self-checks evaluate some formulas whose answers are known and report what they find. The
inspection shows every stage of one formula: its tokens, its postfix order, its value, its
display, and what the precise calculator makes of it.
-/

namespace SciCalc.SelfCheck

/-- How a report ends: normally, with a message, or with failed checks. -/
inductive Ending where
  | normal
  | message (text : String)
  | failed
  deriving DecidableEq

structure Report where
  lines : List String
  ending : Ending
  deriving DecidableEq

def Report.text (report : Report) : String :=
  String.join (report.lines.map (· ++ "\n"))

/-- The number of working digits of an inspection if none is given. -/
def defaultDigits : Int := 30

/-! ## Inspection -/

/-- The texts of tokens, separated by spaces. -/
def tokenLine (tokens : List Token) : String :=
  String.intercalate " " (tokens.map Token.toText)

def errorLine (error : CalcError) : String :=
  "error:          " ++ error.kind.name ++ " (" ++ error.message ++ ")"

/-- An inspection: the lines that it has printed, and the failure that broke it off, if there was
one. -/
structure Inspection where
  lines : List String
  failure : Option Fault
  deriving DecidableEq

/-- The report of an inspection that was not broken off. -/
def Inspection.report (inspection : Inspection) : Except Fault Report :=
  match inspection.failure with
  | none => .ok ⟨inspection.lines, .normal⟩
  | some fault => .error fault

/-- Goes on with the value of a stage, or ends with a line about its error. -/
def stage {α : Type} (lines : List String) (result : Except Fault α)
    (next : α → Inspection) : Inspection :=
  match result with
  | .ok value => next value
  | .error (.calculation error) => ⟨lines ++ [errorLine error], none⟩
  | .error fault => ⟨lines, some fault⟩

/-- Goes on with the value of a stage whose errors are not reported: any of them breaks the inspection
off. -/
def unguardedStage {α : Type} (lines : List String) (result : Except Fault α)
    (next : α → Inspection) : Inspection :=
  match result with
  | .ok value => next value
  | .error fault => ⟨lines, some fault⟩

/-- The text that the precise calculator answers. -/
def preciseText (formula : String) (mode : AngleMode) (digits : Int) : Except Fault String :=
  ((PreciseCalculator.create digits digits).evaluate formula (.text mode.name)).reply >>=
    Datum.toText

/-- Goes through every stage of a formula, line by line. -/
def inspect (formula : String) (mode : AngleMode) (digits : Int) : Inspection :=
  let opening := ["Expression inspection", "expr:           " ++ formula,
    "angle mode:     " ++ mode.name]
  stage opening (Token.tokenize formula) fun tokens =>
    let scanned := opening ++ ["tokens:         " ++ tokenLine tokens]
    stage scanned (Token.toPostfix tokens) fun ordered =>
      let sorted := scanned ++ ["postfix:        " ++ tokenLine ordered]
      stage sorted (Formula.evaluatePostfix Standard.arithmetic mode ordered) fun value =>
        let valued := sorted ++ ["value:          " ++ value.toText]
        unguardedStage valued (Display.formatDouble value) fun display =>
          let displayed := valued ++ ["display:        " ++ display]
          unguardedStage displayed (preciseText formula mode digits) fun precise =>
            ⟨displayed ++ ["precise:        " ++ precise], none⟩

/-! ## Checks -/

def sessionIn (mode : AngleMode) : Session :=
  { Session.initial with state := { State.initial with angleMode := mode } }

/-- What a new session displays for a formula. -/
def displayOf (formula : String) (mode : AngleMode) : Except Fault String :=
  ((sessionIn mode).evaluate (some formula)).reply >>= Datum.toText

/-- The kind of error that a formula gives in degrees. -/
def errorKindOf (formula : String) : Except Fault (Option ErrorKind) :=
  match Formula.evaluate Standard.arithmetic .degrees formula with
  | .ok _ => .ok none
  | .error (.calculation error) => .ok (some error.kind)
  | .error fault => .error fault

/-- A formula with what it displays. -/
def displayed : List (String × String) :=
  [("(2+3)*4-sqrt(16)/2", "18"), ("2^3^2", "512"), ("10-5-2", "3"), ("-5+8", "3"),
    ("(-2)^3", "-8"), ("sin(90)", "1"), ("0.1+0.2", "0.3"), ("1.0168850428141299e-20+6", "6"),
    ("2.5e+3 - 100", "2400"), ("(1e-5 + 2e-5) * 3", "0.00009"), ("factorial(5)", "120"),
    ("12345678901", "1.23456789e+10")]

/-- A digit in as many pairs of parentheses. -/
def nested (pairs : Nat) : String :=
  String.ofList (List.replicate pairs '(' ++ '7' :: List.replicate pairs ')')

/-- Formulas with the kinds of their errors, and how their checks are called. -/
def rejected : List (String × String × ErrorKind) :=
  [("eleven nested pairs are mismatched", nested 11, .mismatchedParentheses),
    ("extra close paren is mismatched", "(1+2))", .mismatchedParentheses),
    ("missing close paren is mismatched", "((1+2)", .mismatchedParentheses),
    ("division by zero is reported", "1/0", .divisionByZero),
    ("sqrt of negative is reported", "sqrt(-1)", .invalidDomain),
    ("unknown function is reported", "foo(1)", .unknownFunction),
    ("stray symbol is reported", "2 $ 3", .invalidCharacter),
    ("dangling operator is reported", "3+", .invalidExpression)]

/-- A zero and a fraction of the given number of threes. -/
def thirds (digits : Nat) : String :=
  "0." ++ String.ofList (List.replicate digits '3')

/-- A comparison: what is compared, what is expected, what is found. -/
structure Comparison where
  label : String
  expected : String
  actual : String
  deriving DecidableEq

def verdict (passed : Bool) : String := if passed then "OK" else "FAIL"

def Comparison.lines (comparison : Comparison) : List String :=
  ["- " ++ comparison.label ++ ": " ++ verdict (comparison.expected == comparison.actual),
    "  expected: " ++ comparison.expected, "  actual:   " ++ comparison.actual]

/-- The checks by name, with what came of them, and the comparisons. -/
def results : Except Fault (List (String × Bool) × List Comparison) := do
  let shown ← displayed.mapM fun (formula, expected) => do
    return (⟨formula, expected, ← displayOf formula .degrees⟩ : Comparison)
  let errors ← rejected.mapM fun (name, formula, kind) => do
    return (name, (← errorKindOf formula) == some kind)
  let calculator := (PreciseCalculator.create 20 10).evaluate "1/3" (.text "rad")
  let first ← calculator.reply >>= Datum.toText
  let more ← calculator.state.expand.reply >>= Datum.toText
  let checks := shown.map (fun comparison =>
      (comparison.label ++ " displays " ++ comparison.expected,
        comparison.actual == comparison.expected)) ++
    [("sin(0) in radians is 0", (← displayOf "sin(0)" .radians) == "0"),
      ("ten nested pairs evaluate", (← displayOf (nested 10) .degrees) == "7")] ++ errors ++
    [("factorial overflow displays Infinity",
        (← displayOf "factorial(200)" .degrees) == "Infinity"),
      ("precise 1/3 keeps 20 digits", first == thirds 20),
      ("more precision adds 10 digits", more == thirds 30)]
  return (checks, shown ++ [⟨"1/3 with 20 digits", thirds 20, first⟩])

def run : Except Fault Report := do
  let (checks, comparisons) ← results
  let failed := (checks.filter (!·.2)).map (·.1)
  let lines := checks.map (fun (name, passed) => name ++ ": " ++ verdict passed) ++
    ["", "Expected vs Actual:"] ++ comparisons.flatMap Comparison.lines
  return if failed.isEmpty then ⟨lines ++ ["", "All regression checks passed."], .normal⟩
    else ⟨lines ++ ["", "FAILED CHECKS:"] ++ failed.map ("- " ++ ·), .failed⟩

/-! ## Arguments -/

/-- The argument after the first occurrence of a flag. -/
def after? (flag : String) : List String → Option String
  | [] => none
  | argument :: rest => if argument == flag then rest.head? else after? flag rest

/-- The number after a flag, or the default if the flag is not there. -/
def numberAfter? (flag : String) (default : Int) (arguments : List String) : Option Int :=
  if arguments.contains flag then (after? flag arguments).bind Numeral.integer? else some default

/-- Inspects the formula that the arguments name, or runs the checks if they name none. -/
def main (arguments : List String) : Except Fault Report :=
  if arguments.contains "--inspect" then
    match after? "--inspect" arguments with
    | none => .ok ⟨[], .message "Missing expression after --inspect"⟩
    | some formula =>
      match numberAfter? "--digits" defaultDigits arguments with
      | none => .ok ⟨[], .message "Invalid value for --digits"⟩
      | some digits =>
        (inspect formula (if arguments.contains "--rad" then .radians else .degrees) digits).report
  else run

end SciCalc.SelfCheck
