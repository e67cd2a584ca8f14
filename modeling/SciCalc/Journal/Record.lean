import SciCalc.Decimal.Numeral

/-! # Records of the journal

The parts of the calculator report what they do. A record has a level, which says how grave it
is, the name of the part, and a message.
-/

namespace SciCalc

/-- The parts of the calculator that write records. -/
inductive Component where
  | application
  | session
  | precise
  | state
  | memory
  deriving DecidableEq

namespace Component

/-- The name under which a part writes its records. -/
def name : Component → String
  | application => "calculadora"
  | session => "calculator_engine"
  | precise => "arbitrary_precision_engine"
  | state => "state_manager"
  | memory => "memory_register"

/-- All parts, in the order in which they are set up. -/
def all : List Component := [application, session, precise, state, memory]

/-- The part with a name. -/
def named? (name : String) : Option Component := all.find? (·.name == name)

end Component

/-- One record: its level, who wrote it, and what it says. -/
structure Record where
  level : Int
  source : String
  message : String
  deriving DecidableEq

namespace Level

abbrev debug : Int := 10

abbrev info : Int := 20

abbrev warning : Int := 30

abbrev error : Int := 40

abbrev critical : Int := 50

def named : List (Int × String) :=
  [(critical, "CRITICAL"), (error, "ERROR"), (warning, "WARNING"), (info, "INFO"),
    (debug, "DEBUG"), (0, "NOTSET")]

/-- The name of a level; one without a name is called by its number, which must not have too many
digits: the journal takes no record of such a level. -/
def name (level : Int) : String :=
  ((named.find? (·.1 == level)).map (·.2)).getD ("Level " ++ toString level)

end Level

namespace Record

def debug (component : Component) (message : String) : Record :=
  ⟨Level.debug, component.name, message⟩

def info (component : Component) (message : String) : Record :=
  ⟨Level.info, component.name, message⟩

def warning (component : Component) (message : String) : Record :=
  ⟨Level.warning, component.name, message⟩

/-- What is asked when a record comes in: whether its source lets its level through. -/
def question (record : Record) : String × Int := (record.source, record.level)

def summary (record : Record) : String :=
  Level.name record.level ++ " " ++ record.source ++ " " ++ record.message

end Record

end SciCalc
