import SciCalc.Formula.Arithmetic
import SciCalc.Decimal.Numeral
import SciCalc.Formula.Lexeme
import SciCalc.Formula.Parentheses

/-! # Tokens of a formula

Tokens are what a formula is computed from. A minus sign where an operand is expected belongs to
the numeral that follows it, and where two operands meet with a parenthesis or a function
between them, a multiplication sign is understood. Two numerals side by side get none.
-/

namespace SciCalc

/-- A token of a formula. A number may keep the text that it was written with. -/
inductive Token where
  | number (value : Double) (text : Option String)
  | operator (symbol : String) (precedence : Int)
  | function (name : String)
  | paren (isOpen : Bool)
  deriving DecidableEq

namespace Token

/-- How strongly an operator sign binds. -/
def precedenceOf (symbol : Char) : Int :=
  if symbol = '+' || symbol = '-' then 1 else if symbol = '^' then 3 else 2

def ofSign (symbol : Char) : Token := operator (String.singleton symbol) (precedenceOf symbol)

/-- The multiplication that is understood. -/
def impliedTimes : Token := ofSign '×'

/-- Whether operators of the given symbol group from the right. -/
def groupsRight (symbol : String) : Bool := symbol == "^"

/-- The token as it is written. -/
def toText : Token → String
  | number value text => text.getD value.toText
  | operator symbol _ => symbol
  | function name => name
  | paren isOpen => if isOpen then "(" else ")"

/-- Whether two tokens count as equal: numbers by their value, everything else by what it is. -/
def sameAs : Token → Token → Bool
  | number left _, number right _ => left.sameValue right
  | operator left leftPrecedence, operator right rightPrecedence =>
    left == right && leftPrecedence == rightPrecedence
  | function left, function right => left == right
  | paren left, paren right => left == right
  | _, _ => false

/-- Whether a minus after the given token is a sign and not an operator. -/
def signMayFollow : Option Token → Bool
  | none => true
  | some (paren isOpen) => isOpen
  | some (operator _ _) => true
  | some (function _) => true
  | some (number _ _) => false

/-- Whether a multiplication is understood between two tokens. -/
def impliesTimes : Option Token → Token → Bool
  | some (number _ _), function _ => true
  | some (number _ _), paren isOpen => isOpen
  | some (paren false), function _ => true
  | some (paren false), paren isOpen => isOpen
  | some (paren false), number _ _ => true
  | _, _ => false

/-- Puts a token in front of the tokens that follow it, with the multiplication that is
understood between it and the token before it. -/
def placeAfter (previous : Option Token) (token : Token) (rest : List Token) : List Token :=
  if impliesTimes previous token then impliedTimes :: token :: rest else token :: rest

/-- The number that a numeral stands for; it must be within the range of doubles. -/
def ofNumeral (text : String) : Except Fault Token :=
  match Double.ofText? text with
  | none => .error .malformed
  | some value =>
    if value.isInfinite then failWith .invalidExpression ("Número fuera de rango: " ++ text)
    else .ok (number value (some text))

def ofWord (name : String) : Except Fault Token :=
  if (UnaryFunction.ofName? name).isSome then .ok (function name)
  else failWith .unknownFunction ("Función desconocida: " ++ name)

/-- The error of a character that has no meaning in a formula. -/
def strayError {α : Type} (c : Char) : Except Fault α :=
  failWith .invalidCharacter ("Carácter inválido: " ++ String.singleton c)

/-- The tokens of the pieces of a formula that follow the given token. The first piece that
stands for nothing gives the error. -/
def ofLexemes : Option Token → List Lexeme → Except Fault (List Token)
  | _, [] => .ok []
  | previous, .operator '-' :: .numeral text :: rest =>
    if signMayFollow previous then do
      let token ← ofNumeral (String.ofList ('-' :: text))
      placeAfter previous token <$> ofLexemes (some token) rest
    else (ofSign '-' :: ·) <$> ofLexemes (some (ofSign '-')) (.numeral text :: rest)
  | previous, .numeral text :: rest => do
    let token ← ofNumeral (String.ofList text)
    placeAfter previous token <$> ofLexemes (some token) rest
  | _, .operator symbol :: rest =>
    (ofSign symbol :: ·) <$> ofLexemes (some (ofSign symbol)) rest
  | previous, .paren isOpen :: rest =>
    placeAfter previous (paren isOpen) <$> ofLexemes (some (paren isOpen)) rest
  | previous, .word letters :: rest => do
    let token ← ofWord (String.ofList letters)
    placeAfter previous token <$> ofLexemes (some token) rest
  | _, .stray c :: _ => strayError c

/-- The tokens of a formula. It must not be blank, and its parentheses must be in order. -/
def tokenize (formula : String) : Except Fault (List Token) :=
  if Text.isAllBlank formula then failWith .invalidExpression "Expresión vacía"
  else do
    Parentheses.validate formula
    ofLexemes none (Lexeme.scan formula.toList)

end Token

end SciCalc
