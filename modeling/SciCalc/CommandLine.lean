import SciCalc.Console
import SciCalc.Journal.Basic
import SciCalc.Journal.Setting

/-! # The command line

Options begin with two hyphens and may be cut short as long as one option is meant; only the
request for help has a short form. A value follows its option or is joined to it by an equals
sign. There are no arguments but options. A negative number, or an argument with a space in it,
is a value even though it begins with a hyphen, and after two bare hyphens everything is.

The options are carried out in order, so of two faults, or of a fault and a request for help,
the first one counts; but an ambiguous option is a fault before all others, and an argument that
belongs to no option only counts at the end.
-/

namespace SciCalc

/-- What the user can ask for. -/
structure Options where
  radians : Bool
  precise : Bool
  digits : Int
  logLevel : Option String
  deriving DecidableEq

def Options.default : Options :=
  ⟨false, Settings.preciseByDefault, Settings.initialDigits, none⟩

/-- What the command line means. -/
inductive Invocation where
  | run (options : Options)
  | help
  | misuse
  deriving DecidableEq

namespace CommandLine

/-- The options there are. -/
inductive Switch where
  | help
  | radians
  | precise
  | digits
  | logLevel
  deriving DecidableEq

namespace Switch

def names : List (Switch × String) :=
  [(help, "--help"), (radians, "--rad"), (precise, "--precise"), (digits, "--digits"),
    (logLevel, "--log-level")]

def takesValue : Switch → Bool
  | digits | logLevel => true
  | _ => false

/-- The options that a name, perhaps cut short, can mean; the full name means only itself. -/
def candidates (name : List Char) : List Switch :=
  match names.find? (·.2.toList == name) with
  | some (switch, _) => [switch]
  | none => (names.filter fun (_, full) => name.isPrefixOf full.toList).map (·.1)

end Switch

inductive Argument where
  /-- A value, or an argument that belongs to nothing. -/
  | value (text : String)
  /-- An option, perhaps with a value joined to it. -/
  | switch (switch : Switch) (joined : Option String)
  /-- The request for help in its short form, with the letters joined to it. -/
  | shortHelp (letters : List Char)
  /-- Something that looks like an option and is none. -/
  | unknown
  /-- Two bare hyphens, after which everything is a value. -/
  | separator
  deriving DecidableEq

/-- Whether all characters are decimal digits, and there is at least one. -/
def isDigits (cs : List Char) : Bool :=
  !cs.isEmpty && cs.all fun c => (Text.digitValue? c).isSome

def dropLineFeed (cs : List Char) : List Char :=
  if cs.getLast? == some '\n' then cs.dropLast else cs

/-- Whether the text after a hyphen makes it a negative number: digits, or a point and digits,
perhaps with digits before it. -/
def isNumber (cs : List Char) : Bool :=
  let cs := dropLineFeed cs
  let whole := cs.takeWhile fun c => (Text.digitValue? c).isSome
  match cs.drop whole.length with
  | [] => isDigits whole
  | '.' :: fraction => isDigits fraction
  | _ => false

/-- The name of an option and the value that an equals sign joins to it. -/
def splitJoined (cs : List Char) : List Char × Option String :=
  match cs.dropWhile (· != '=') with
  | [] => (cs, none)
  | _ :: value => (cs.takeWhile (· != '='), some (String.ofList value))

/-- What an argument is that begins with a hyphen and means no option. -/
def otherwise (text : String) (cs : List Char) : Argument :=
  if isNumber cs || text.toList.contains ' ' then .value text else .unknown

/-- What an argument is; nothing if it is ambiguous. -/
def classify (text : String) : Option Argument :=
  match text.toList with
  | '-' :: '-' :: [] => some .separator
  | '-' :: '-' :: rest =>
    let (name, joined) := splitJoined ('-' :: '-' :: rest)
    match Switch.candidates name with
    | [switch] => some (.switch switch joined)
    | [] => some (otherwise text ('-' :: rest))
    | _ => none
  | '-' :: 'h' :: letters => some (.shortHelp letters)
  | '-' :: rest => some (if rest.isEmpty then .value text else otherwise text rest)
  | _ => some (.value text)

/-- What the arguments are; nothing if one is ambiguous. -/
def classifyAll : List String → Option (List Argument)
  | [] => some []
  | text :: rest =>
    (classify text).bind fun argument =>
      if argument = .separator then some (argument :: rest.map .value)
      else (classifyAll rest).map (argument :: ·)

/-- The options with one that takes no value carried out. -/
def enable (options : Options) : Switch → Options
  | .radians => { options with radians := true }
  | .precise => { options with precise := true }
  | _ => options

/-- The options with one that takes a value carried out; nothing if the value is none. -/
def assign (options : Options) (value : String) : Switch → Option Options
  | .digits => (Numeral.integer? value).map fun digits => { options with digits := digits }
  | .logLevel => some { options with logLevel := some value }
  | _ => none

/-- Whether letters may be joined to the short request for help: more of the same, and then
anything but an equals sign or a hyphen. -/
def helpMayPrecede (letters : List Char) : Bool :=
  match letters.dropWhile (· == 'h') with
  | c :: _ => c != '=' && c != '-'
  | [] => true

/-- Carries arguments out. Whether one was left over is known at the end. -/
def interpret (options : Options) (leftOver : Bool) : List Argument → Invocation
  | [] => if leftOver then .misuse else .run options
  | .shortHelp letters :: _ => if helpMayPrecede letters then .help else .misuse
  | .switch .help none :: _ => .help
  | .switch switch none :: rest =>
    if switch.takesValue then
      match rest with
      | .value text :: rest =>
        match assign options text switch with
        | some options => interpret options leftOver rest
        | none => .misuse
      | _ => .misuse
    else interpret (enable options switch) leftOver rest
  | .switch switch (some text) :: rest =>
    match assign options text switch with
    | some options => interpret options leftOver rest
    | none => .misuse
  | _ :: rest => interpret options true rest

/-- What the command line means. -/
def parse (arguments : List String) : Invocation :=
  match classifyAll arguments with
  | some arguments => interpret .default false arguments
  | none => .misuse

end CommandLine

/-- How a program ends: its exit code and what it has written to the console. -/
structure Completion where
  exitCode : Nat
  output : String
  deriving DecidableEq

namespace CommandLine

/-- The level that the options ask for. An empty name counts as none. -/
def levelOf (options : Options) : Datum :=
  Level.setting (options.logLevel.filter (!·.isEmpty))

/-- Adds an entry of a run to the console. -/
def playEntry (clock : String) (journal : Journal) : Entry → Journal
  | .written text => journal.write text .console
  | .reported record => journal.log clock record

/-- Runs the program with the given options on the lines of the input. -/
def runOptions (clock : String) (options : Options) (lines : List String) :
    Except Fault Completion :=
  match levelOf options with
  | .number (.int level) => do
    let mode : AngleMode := if options.radians then .radians else .degrees
    let transcript ← (Console.create mode options.precise options.digits).run lines
    let journal := transcript.entries.foldl (playEntry clock)
      (Journal.initial.setUp clock level false)
    return ⟨if transcript.errors = 0 then 0 else 1, journal.consoleText⟩
  | _ => .error .malformed

/-- Runs the program with arguments on an input. -/
def main (clock : String) (arguments : List String) (input : String) :
    Except Fault Completion :=
  match parse arguments with
  | .run options => runOptions clock options (input.splitOn "\n")
  | .help => .ok ⟨0, ""⟩
  | .misuse => .ok ⟨2, ""⟩

end CommandLine

end SciCalc
