import SciCalc.Precise.Calculator
import SciCalc.Session.Basic

/-! # The console

The console reads formulas, one a line, and writes one line for each: its value, or the message
of its error. White space around a formula does not count, blank lines are skipped, and a word
of farewell ends the run. Either calculator can answer; what one line leaves behind in it has no
influence on the next.
-/

namespace SciCalc

/-- What a run of the console produces, in order: texts that are written, and records. -/
inductive Entry where
  | written (text : String)
  | reported (record : Record)
  deriving DecidableEq

/-- What a run of the console has produced: its entries and how many lines were errors. -/
structure Transcript where
  entries : List Entry
  errors : Nat
  deriving DecidableEq

namespace Transcript

def empty : Transcript := ⟨[], 0⟩

def append (first second : Transcript) : Transcript :=
  ⟨first.entries ++ second.entries, first.errors + second.errors⟩

def text (transcript : Transcript) : String :=
  String.join (transcript.entries.filterMap fun entry =>
    match entry with
    | .written text => some text
    | .reported _ => none)

end Transcript

/-- The console: a session, which holds the angle mode, and the precise calculator if that one
is to answer. -/
structure Console where
  session : Session
  precise : Option PreciseCalculator
  deriving DecidableEq

namespace Console

/-- The words that end a run. -/
def farewells : List String := ["salir", "exit", "quit"]

/-- Whether a line, without the white space around it, ends the run. Case does not count. -/
def isFarewell (line : String) : Bool :=
  farewells.contains (String.ofList (line.toList.map Char.toLower))

/-- A console in the given mode, with the precise calculator if that is wanted. -/
def create (mode : AngleMode) (precise : Bool) (digits : Int) : Console :=
  ⟨{ Session.initial with state := { State.initial with angleMode := mode } },
    if precise then some (.create digits Settings.digitStep) else none⟩

def respond (console : Console) (formula : String) : Outcome Console :=
  match console.precise with
  | some calculator =>
    let outcome := calculator.evaluate formula (.text console.session.state.angleMode.name)
    ⟨outcome.reply, { console with precise := some outcome.state }, outcome.records⟩
  | none =>
    let outcome := console.session.evaluate (some formula)
    ⟨outcome.reply, { console with session := outcome.state }, outcome.records⟩

/-- What one formula produces, or the failure that no formula is meant to show. -/
def transcribe (reply : Except Fault Datum) (records : List Record) : Except Fault Transcript :=
  match reply with
  | .ok value => do
    return ⟨records.map .reported ++ [.written ((← value.toText) ++ "\n")], 0⟩
  | .error (.calculation error) =>
    .ok ⟨records.map .reported ++ [.written ("Error: " ++ error.message ++ "\n")], 1⟩
  | .error fault => .error fault

/-- Evaluates lines until one ends the run. -/
def run (console : Console) : List String → Except Fault Transcript
  | [] => .ok .empty
  | line :: rest =>
    let formula := Text.trim line
    if formula.isEmpty then console.run rest
    else if isFarewell formula then .ok .empty
    else do
      let outcome := console.respond formula
      let first ← transcribe outcome.reply outcome.records
      let others ← outcome.state.run rest
      return first.append others

/-- Runs a new console on lines, in the mode that a value of any kind names. -/
def runLines (lines : List String) (mode : Datum) (precise : Bool) (digits : Int) :
    Except Fault Transcript := do
  let mode ← AngleMode.ofDatum mode
  (create mode precise digits).run lines

end Console

end SciCalc
