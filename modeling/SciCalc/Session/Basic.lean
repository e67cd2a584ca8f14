import SciCalc.Standard.Arithmetic
import SciCalc.Display.Basic
import SciCalc.Formula.Evaluation
import SciCalc.Session.Memory

/-! # Sessions

A session is a state, a memory register, and a mark that stands right after a successful
evaluation. While the mark stands, the number being typed is the result on display: typing
starts a new number, and whatever continues the formula starts from the full value of the
result and not from its displayed text.

`Session.press` says what each key does. A key that is refused leaves the session as it was; an
evaluation that fails keeps the formula, writes the error and takes the mark away.
-/

namespace SciCalc

structure Session where
  state : State
  memory : Memory
  justEvaluated : Bool
  deriving DecidableEq

namespace Session

def initial : Session := ⟨.initial, .empty, false⟩

/-- The text from which the last result is continued: its shortest text. -/
def resultText (session : Session) : String :=
  (session.state.lastResult.map Double.toText).getD "None"

/-- The session in which a new number begins in place of the displayed result. -/
def startNumber (session : Session) : Session :=
  if session.justEvaluated then
    { session with state := session.state.setExpression "", justEvaluated := false }
  else session

/-- Types characters of a number. -/
def enter (session : Session) (text : String) : Outcome Session :=
  let typed := (if session.justEvaluated then "" else session.state.inputBuffer) ++ text
  if Display.isPartialInput typed then
    let started := session.startNumber
    .answer (.text typed) { started with state := started.state.setInputBuffer typed }
  else
    .failed (.calculation ⟨.invalidCharacter, "Entrada inválida: " ++ text⟩) session

/-- The formula that the typed number and a fragment continue. -/
def continued (session : Session) (fragment : String) : String :=
  (if session.justEvaluated then session.resultText
    else session.state.expression ++ session.state.inputBuffer) ++ fragment

/-- Ends the number being typed and continues the formula with a fragment. -/
def append (session : Session) (fragment : String) : Outcome Session :=
  let formula := session.continued fragment
  match Parentheses.depth formula with
  | .error _ => .failed (.calculation (.ofKind .mismatchedParentheses)) session
  | .ok depth =>
    let outcome := ((session.state.setExpression formula).clearInputBuffer).setParenthesisDepth
      (.number (.int depth))
    ⟨.ok (.text formula), { session with state := outcome.state, justEvaluated := false },
      outcome.records⟩

/-- The value of a formula in the session's angle mode. -/
def evaluateValue (session : Session) (formula : String) : Except Fault Double :=
  Formula.evaluate Standard.arithmetic session.state.angleMode formula

/-- The session that shows a finite result, and what is reported on the way. -/
def showResult (session : Session) (value : Double) (text : String) : Session × List Record :=
  let kept := session.state.setLastResult (.float value)
  let cleared := ((kept.state.setInputBuffer text).setExpression "").setParenthesisDepth
    (.number (.int 0))
  ({ session with state := cleared.state, justEvaluated := true }, kept.records ++ cleared.records)

/-- The formula that an evaluation without an argument takes. -/
def pendingFormula (session : Session) : String :=
  if session.justEvaluated then session.resultText
  else session.state.expression ++ session.state.inputBuffer

/-- The session that a failed evaluation leaves behind. -/
def showError (session : Session) (message : String) : Session :=
  { session with state := session.state.setError (some message), justEvaluated := false }

def evaluate (session : Session) (given : Option String) : Outcome Session :=
  let formula := given.getD session.pendingFormula
  let started := Record.debug .session
    ("Evaluando " ++ Text.quoted formula ++ " en modo " ++ session.state.angleMode.name)
  match session.evaluateValue formula with
  | .error (.calculation error) =>
    ⟨.error (.calculation error), session.showError error.message,
      [started, .warning .session
        ("Error al evaluar " ++ Text.quoted formula ++ ": " ++ error.message)]⟩
  | .error fault => ⟨.error fault, { session with justEvaluated := false }, [started]⟩
  | .ok value =>
    match Display.formatDouble value with
    | .error fault => ⟨.error fault, { session with justEvaluated := false }, [started]⟩
    | .ok text =>
      if value.isFinite then
        let (shown, records) := session.showResult value text
        ⟨.ok (.text text), shown, started :: records⟩
      else
        ⟨.ok (.text text), session.showError ("Resultado no finito: " ++ text),
          [started, .warning .session
            ("Resultado no finito para " ++ Text.quoted formula ++ ": " ++ text)]⟩

/-- The value that the memory keys take: the result on display, the number being typed, or the
last result. -/
def currentValue (session : Session) : Except Fault Datum :=
  if session.justEvaluated then .ok (.ofDouble? session.state.lastResult)
  else if session.state.inputBuffer.isEmpty then
    .ok (.float (session.state.lastResult.getD (Double.zero false)))
  else
    match Double.ofText? session.state.inputBuffer with
    | some x => .ok (.float x)
    | none => fail .invalidValue

/-- Does something to the memory with the current value. -/
def withMemory (session : Session) (action : Memory → Datum → Outcome Memory) :
    Outcome Session :=
  match session.currentValue with
  | .error fault => .failed fault session
  | .ok value =>
    let outcome := action session.memory value
    ⟨outcome.reply, { session with memory := outcome.state }, outcome.records⟩

/-- Puts the number in the memory on display. -/
def showMemory (session : Session) : Outcome Session :=
  match Display.formatDouble session.memory.value with
  | .error fault => .failed fault session
  | .ok text =>
    let started := session.startNumber
    .answer (.text text) { started with state := started.state.setInputBuffer text }

/-- Replaces the number on display by a text. -/
def display (session : Session) (text : String) : Outcome Session :=
  .answer (.text text) { session with state := session.state.setInputBuffer text }

/-- The texts that are no number yet. -/
def unfinished : List String := ["-", ".", "-."]

/-- Changes the sign of a typed number. A zero stays as it is. -/
def negateTyped (session : Session) (typed : String) : Outcome Session :=
  match Double.ofText? typed with
  | none => .failed .malformed session
  | some value =>
    if value.isZero then .answer (.text session.state.inputBuffer) session
    else
      match Display.formatDouble value.neg with
      | .error fault => .failed fault session
      | .ok text => session.display text

def negateResult (session : Session) (value : Double) : Outcome Session :=
  let outcome := session.state.setLastResult (.float value.neg)
  let session := { session with state := outcome.state }
  match Display.formatDouble value.neg with
  | .error fault => ⟨.error fault, session, outcome.records⟩
  | .ok text => { session.display text with records := outcome.records }

/-- Changes the sign of the number being typed, or of the last result if none is; otherwise a
minus begins a number. -/
def negate (session : Session) : Outcome Session :=
  let typed := if session.justEvaluated then "" else session.state.inputBuffer
  if !typed.isEmpty && !unfinished.contains typed then session.negateTyped typed
  else
    match (if typed.isEmpty then session.state.lastResult else none) with
    | some value => session.negateResult value
    | none => session.display "-"

/-- Lets a command act on the state alone. -/
def onState (session : Session) (outcome : Outcome State) : Outcome Session :=
  ⟨outcome.reply, { session with state := outcome.state }, outcome.records⟩

/-- Lets a command act on the memory alone. -/
def onMemory (session : Session) (outcome : Outcome Memory) : Outcome Session :=
  ⟨outcome.reply, { session with memory := outcome.state }, outcome.records⟩

inductive Key where
  | enter (text : String)
  | append (fragment : String)
  | evaluate (formula : Option String)
  | evaluateValue (formula : String)
  | memoryStore
  | memoryAdd
  | memoryRecall
  | memoryClear
  | negate
  | clearEntry
  | allClear
  | toggleAngleMode
  | setAngleMode (mode : Datum)
  | showAngleMode

def press (session : Session) : Key → Outcome Session
  | .enter text => session.enter text
  | .append fragment => session.append fragment
  | .evaluate formula => session.evaluate formula
  | .evaluateValue formula => ⟨Datum.float <$> session.evaluateValue formula, session, []⟩
  | .memoryStore => session.withMemory Memory.store
  | .memoryAdd => session.withMemory Memory.add
  | .memoryRecall => session.showMemory
  | .memoryClear => .silent { session with memory := .empty }
  | .negate => session.negate
  | .clearEntry =>
    .silent { session with state := session.state.clearInputBuffer, justEvaluated := false }
  | .allClear => .silent { session with state := .initial, justEvaluated := false }
  | .toggleAngleMode => session.onState session.state.toggleAngleMode
  | .setAngleMode mode => session.onState (session.state.setAngleMode mode)
  | .showAngleMode => .answer (.text session.state.angleMode.name) session

/-- What can be done to a session: pressing a key, writing its state or its memory directly, or
starting anew over the same state and memory, which takes the mark away. -/
inductive Command where
  | key (key : Key)
  | state (command : State.Command)
  | memory (command : Memory.Command)
  | rebind

def apply (session : Session) : Command → Outcome Session
  | .key key => session.press key
  | .state command => session.onState (session.state.apply command)
  | .memory command => session.onMemory (session.memory.apply command)
  | .rebind => .silent { session with justEvaluated := false }

end Session

end SciCalc
