import SciCalc.Datum
import SciCalc.Journal.Record

/-! # The level that the user asks for

The user names a level in upper or lower case. A name that means nothing leaves the default,
which is the level of warnings. One name means a text and not a level: the template of a
record, with which nothing can be set up.
-/

namespace SciCalc.Level

/-- A character in upper case, as far as that is an ASCII letter. Two letters beyond ASCII have
one, the dotless i and the long s. -/
def upperCase (c : Char) : Char :=
  if c = 'ı' then 'I' else if c = 'ſ' then 'S' else c.toUpper

def aliases : List (Int × String) := [(critical, "FATAL"), (warning, "WARN")]

/-- What a name in upper case stands for. -/
def constant? (name : String) : Option Datum :=
  match (named ++ aliases).find? (·.2 == name) with
  | some (level, _) => some (.number (.int level))
  | none =>
    if name == "BASIC_FORMAT" then some (.text "%(levelname)s:%(name)s:%(message)s") else none

/-- What a name stands for, and the level of warnings if it stands for nothing. -/
def setting (name : Option String) : Datum :=
  ((name.map fun text => String.ofList (text.toList.map upperCase)).bind constant?).getD
    (.number (.int warning))

end SciCalc.Level
