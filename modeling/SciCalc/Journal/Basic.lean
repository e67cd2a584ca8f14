import SciCalc.Journal.Record

/-! # The journal

Each part of the calculator has a channel with a level and handlers. A record passes if its
level is at least that of the channel; a channel of level zero has none of its own and takes
that of the root, which lets warnings through. Every handler then applies its own level and
writes the record as one line to the console or to a file.

A source that is no part itself hands its records up, to a source whose name is the beginning
of its own name up to a point. Where two points stand next to each other, which one that is can
change with the sources that the journal has met. Whether a source lets a level through is
asked once and remembered.

Setting the journal up again replaces all levels and handlers, forgets these answers and empties
the file, so a record is never written twice.
-/

namespace SciCalc

/-- Where a handler writes. -/
inductive Target where
  | console
  | file
  deriving DecidableEq

/-- A handler: the least level of the records that it writes, and where it writes them. -/
structure Handler where
  level : Int
  target : Target
  deriving DecidableEq

/-- The channel of one part: its level, its handlers, and whether records go on to the root. -/
structure Channel where
  level : Int
  handlers : List Handler
  propagates : Bool
  deriving DecidableEq

namespace Channel

def untouched : Channel := ⟨0, [], true⟩

/-- The level that decides: that of the channel, or a warning's if the channel has none. -/
def effectiveLevel (channel : Channel) : Int :=
  if channel.level = 0 then Level.warning else channel.level

/-- Whether records of the given level are let through. Those whose level is not positive never
are. -/
def admits (channel : Channel) (level : Int) : Bool :=
  0 < level && channel.effectiveLevel ≤ level

/-- The targets of the handlers that write a record of the given level, in their order. -/
def targets (channel : Channel) (level : Int) : List Target :=
  (channel.handlers.filter (·.level ≤ level)).map (·.target)

end Channel

/-- The journal: the channels of all parts, the sources that it has met, whether they let a level
through as far as that has been asked, and what has been written so far. -/
structure Journal where
  channels : List (Component × Channel)
  sources : List String
  answers : List ((String × Int) × Bool)
  console : List String
  file : Option (List String)
  deriving DecidableEq

namespace Journal

def initial : Journal :=
  ⟨Component.all.map fun component => (component, .untouched), [], [], [], none⟩

/-- The part above a name, which is given from its end. The name before a point is a part, or it
is a source that has been met and hands its records up in turn. The search passes over a name
that is neither, and over its last character with it: a point there does not count. -/
def partAbove? (sources : List String) : List Char → Option Component
  | [] => none
  | '.' :: c :: rest =>
    let name := String.ofList (c :: rest).reverse
    match Component.named? name with
    | some component => some component
    | none =>
      if sources.contains name then partAbove? sources (c :: rest) else partAbove? sources rest
  | _ :: rest => partAbove? sources rest

/-- The part that a source belongs to. -/
def componentOf? (sources : List String) (source : String) : Option Component :=
  match Component.named? source with
  | some component => some component
  | none => partAbove? sources source.toList.reverse

/-- The channel that the records of a source go through. -/
def channelOf (journal : Journal) (source : String) : Channel :=
  match componentOf? journal.sources source with
  | some component => (journal.channels.lookup component).getD .untouched
  | none => .untouched

/-- The line that a record is written as, at the time that the clock shows. -/
def line (clock : String) (record : Record) : String :=
  clock ++ " - " ++ record.source ++ " - " ++ Level.name record.level ++ " - " ++
    record.message ++ "\n"

/-- Writes a text to a target. A file that is not open takes nothing. -/
def write (journal : Journal) (text : String) : Target → Journal
  | .console => { journal with console := journal.console ++ [text] }
  | .file => { journal with file := journal.file.map (· ++ [text]) }

/-- Whether a record is let through: as its source answered before for this level, or else as its
channel says. -/
def answer (journal : Journal) (record : Record) : Bool :=
  (journal.answers.lookup record.question).getD
    ((journal.channelOf record.source).admits record.level)

/-- Takes note of the source of a record and of its answer. -/
def noted (journal : Journal) (record : Record) : Journal :=
  { journal with
    sources := journal.sources ++ [record.source]
    answers := journal.answers ++ [(record.question, journal.answer record)] }

/-- What becomes of a record. It is written if it is let through, unless its level cannot be
named. -/
def log (journal : Journal) (clock : String) (record : Record) : Journal :=
  if journal.answer record && Numeral.isWritable record.level then
    ((journal.channelOf record.source).targets record.level).foldl
      (fun journal target => journal.write (line clock record) target) (journal.noted record)
  else journal.noted record

/-- The handlers of a level: one for the console, and one for the file if there is a file. -/
def handlersOf (level : Int) (toFile : Bool) : List Handler :=
  ⟨level, .console⟩ :: if toFile then [⟨level, .file⟩] else []

/-- The journal with new levels and handlers, with or without a file. -/
def opened (journal : Journal) (level : Int) (toFile : Bool) : Journal :=
  { journal with
    channels := journal.channels.map fun (component, _) =>
      (component, ⟨level, handlersOf level toFile, false⟩)
    answers := []
    file := if toFile then some [] else journal.file }

/-- The record that says that the journal has been set up. -/
def banner : Record := .info .application "Logging inicializado."

/-- Sets the journal up with a level, with or without a file, and says so. -/
def setUp (journal : Journal) (clock : String) (level : Int) (toFile : Bool) : Journal :=
  (journal.opened level toFile).log clock banner

def consoleText (journal : Journal) : String := String.join journal.console

def fileText (journal : Journal) : Option String := journal.file.map String.join

end Journal

end SciCalc
