import SciCalc.Text.Blank

/-! # Lexemes of a formula

A formula is split from the left into the longest pieces that stand for something: numerals,
operator signs, parentheses and words of ASCII letters. White space only separates. A character
that begins no piece is a piece of its own, so the splitting never fails; what is wrong with a
piece is said when it becomes a token.
-/

namespace SciCalc

/-- A piece of a formula. -/
inductive Lexeme where
  | numeral (text : List Char)
  | operator (symbol : Char)
  | paren (isOpen : Bool)
  | word (letters : List Char)
  | stray (c : Char)
  deriving DecidableEq

namespace Lexeme

def operatorSigns : List Char := ['+', '-', '×', '÷', '*', '/', '^']

/-- Whether a text begins with a numeral: with a digit, or with a point and a digit. -/
def startsNumeral : List Char → Bool
  | [] => false
  | [c] => c.isDigit
  | c :: next :: _ => c.isDigit || (c == '.' && next.isDigit)

/-- The point at the start of a text and the digits after it, and what follows. -/
def splitPoint : List Char → List Char × List Char
  | '.' :: rest => ('.' :: rest.takeWhile Char.isDigit, rest.dropWhile Char.isDigit)
  | cs => ([], cs)

/-- The sign at the start of a text, and what follows. -/
def splitSign : List Char → List Char × List Char
  | '+' :: rest => (['+'], rest)
  | '-' :: rest => (['-'], rest)
  | cs => ([], cs)

/-- The power of ten at the start of a text, and what follows. It is a mark, an optional sign
and digits; without a digit it is not there at all. -/
def splitPower : List Char → List Char × List Char
  | [] => ([], [])
  | mark :: rest =>
    let (sign, digits) := splitSign rest
    if (mark == 'e' || mark == 'E') && !(digits.takeWhile Char.isDigit).isEmpty then
      (mark :: sign ++ digits.takeWhile Char.isDigit, digits.dropWhile Char.isDigit)
    else ([], mark :: rest)

/-- The longest numeral at the start of a text, and what follows. -/
def splitNumeral (cs : List Char) : List Char × List Char :=
  let (point, afterPoint) := splitPoint (cs.dropWhile Char.isDigit)
  let (power, rest) := splitPower afterPoint
  (cs.takeWhile Char.isDigit ++ point ++ power, rest)

/-- The first piece of a text that begins with the given character other than white space, and
what follows. -/
def split (c : Char) (rest : List Char) : Lexeme × List Char :=
  if startsNumeral (c :: rest) then
    let (text, rest) := splitNumeral (c :: rest)
    (numeral text, rest)
  else if operatorSigns.contains c then (operator c, rest)
  else if c = '(' then (paren true, rest)
  else if c = ')' then (paren false, rest)
  else if c.isAlpha then (word (c :: rest.takeWhile Char.isAlpha), rest.dropWhile Char.isAlpha)
  else (stray c, rest)

/-- The pieces of a text, at most `fuel` characters of white space and pieces. -/
def scanFrom : Nat → List Char → List Lexeme
  | 0, _ => []
  | _ + 1, [] => []
  | fuel + 1, c :: rest =>
    if Text.isBlank c then scanFrom fuel rest
    else (split c rest).1 :: scanFrom fuel (split c rest).2

/-- The pieces of a text. Each takes at least one character, so there are no more pieces than
characters. -/
def scan (cs : List Char) : List Lexeme := scanFrom cs.length cs

def chars : Lexeme → List Char
  | numeral text => text
  | operator symbol => [symbol]
  | paren isOpen => if isOpen then ['('] else [')']
  | word letters => letters
  | stray c => [c]

end Lexeme

end SciCalc
