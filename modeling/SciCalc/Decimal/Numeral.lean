import SciCalc.Decimal.Basic
import SciCalc.Text.Blank
import SciCalc.Text.DecimalDigit

/-! # Numbers read from texts

The reader takes an optional sign, digits with an optional point, and an optional power of ten;
also the words for infinity and for what is not a number, in any case. Digits may come from any
script, a single underscore may stand between two digits, and white space may surround the
whole. Everything else is no number.
-/

namespace SciCalc

/-- A number as it is written. -/
inductive Numeral where
  | nan
  | inf (negative : Bool)
  | decimal (value : Decimal)
  deriving DecidableEq

namespace Numeral

/-- The white space that may surround a number: all of it but the four information
separators. -/
def isPadding (c : Char) : Bool :=
  Text.isBlank c && !(0x1C ≤ c.toNat && c.toNat ≤ 0x1F)

/-- Takes away the underscores, each of which must stand between two digits. -/
def dropSeparators? : List Char → Option (List Char)
  | [] => some []
  | '_' :: _ => none
  | c :: '_' :: next :: rest =>
    if c.isDigit && next.isDigit then (dropSeparators? (next :: rest)).map (c :: ·) else none
  | c :: rest => (dropSeparators? rest).map (c :: ·)

/-- The sign in front of a number, true for a minus, and what follows it. -/
def splitSign : List Char → Bool × List Char
  | '-' :: rest => (true, rest)
  | '+' :: rest => (false, rest)
  | cs => (false, cs)

/-- The natural number that a run of ASCII digits denotes. -/
def digitsValue (digits : List Char) : Nat := Nat.ofDigitChars 10 digits 0

/-- The value of a run of digits with an optional sign, if there is at least one digit and
nothing else. -/
def signedDigits? (cs : List Char) : Option Int :=
  let (negative, digits) := splitSign cs
  if digits.isEmpty || !digits.all Char.isDigit then none
  else
    let value : Int := digitsValue digits
    some (if negative then -value else value)

/-- The power of ten written after the digits: nothing, or a mark and a signed number. -/
def powerOfTen? : List Char → Option Int
  | [] => some 0
  | c :: rest => if c = 'e' || c = 'E' then signedDigits? rest else none

/-- A point and the digits after it, if there is a point, and what follows. -/
def splitFraction : List Char → List Char × List Char
  | '.' :: rest => (rest.takeWhile Char.isDigit, rest.dropWhile Char.isDigit)
  | cs => ([], cs)

/-- The decimal that a text without sign denotes. -/
def decimal? (negative : Bool) (cs : List Char) : Option Decimal :=
  let whole := cs.takeWhile Char.isDigit
  let (fraction, rest) := splitFraction (cs.dropWhile Char.isDigit)
  if whole.isEmpty && fraction.isEmpty then none
  else
    (powerOfTen? rest).map fun power =>
      ⟨negative, digitsValue (whole ++ fraction), power - fraction.length⟩

/-- Reads a number in ASCII without white space and underscores. -/
def ofAscii? (cs : List Char) : Option Numeral :=
  let (negative, body) := splitSign cs
  let word := String.ofList (body.map Char.toLower)
  if word == "inf" || word == "infinity" then some (.inf negative)
  else if word == "nan" then some .nan
  else (decimal? negative body).map .decimal

def ofText? (text : String) : Option Numeral :=
  (dropSeparators? ((Text.trimBoth isPadding text.toList).map Text.asciiDigit)).bind ofAscii?

def toDouble : Numeral → Double
  | nan => .nan
  | inf negative => .inf negative
  | decimal value => value.toDouble

/-- The most digits of an integer that are read or written. It is irreducible so that no power of
ten with as many digits is worked out on the way. -/
@[irreducible] def greatestDigits : Nat := 4300

/-- Reads an integer: digits with an optional sign, with underscores and white space as in
other numbers. -/
def integer? (text : String) : Option Int :=
  (dropSeparators? ((Text.trimBoth isPadding text.toList).map Text.asciiDigit)).bind fun cs =>
    if greatestDigits < (cs.filter Char.isDigit).length then none else signedDigits? cs

/-- Whether an integer is written in decimal digits. -/
def isWritable (n : Int) : Bool := n.natAbs < tenPow greatestDigits

theorem isWritable_iff {n : Int} : isWritable n = true ↔ n.natAbs < tenPow greatestDigits :=
  decide_eq_true_iff

end Numeral

/-- The double nearest to the number that a text denotes. -/
def Double.ofText? (text : String) : Option Double :=
  (Numeral.ofText? text).map Numeral.toDouble

end SciCalc
