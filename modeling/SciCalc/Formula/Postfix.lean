import SciCalc.Formula.Token

/-! # Postfix order

In postfix order an operator or a function stands after its operands, and there are no
parentheses. Numbers are put out as they come; operators, functions and opening parentheses
wait on a stack. An operator puts out the waiting ones that bind at least as strongly, unless
it groups from the right; functions bind more strongly than any operator. A closing
parenthesis puts out what waits above its partner, and the function in front of that.
-/

namespace SciCalc.Token

/-- Whether a waiting token is put out before an operator of the given symbol and precedence is
put on the stack. -/
def yieldsTo (symbol : String) (precedence : Int) : Token → Bool
  | function _ => true
  | operator _ waiting => precedence < waiting || (waiting == precedence && !groupsRight symbol)
  | _ => false

def isOpening : Token → Bool
  | paren isOpen => isOpen
  | _ => false

/-- The function on top of a stack if there is one, and the rest of the stack. -/
def splitFunction : List Token → List Token × List Token
  | function name :: rest => ([function name], rest)
  | stack => ([], stack)

/-- The postfix order of the tokens that follow, with the given tokens waiting. -/
def postfixFrom : List Token → List Token → Except Fault (List Token)
  | stack, [] => if stack.any isOpening then fail .mismatchedParentheses else .ok stack
  | stack, number value text :: rest => (number value text :: ·) <$> postfixFrom stack rest
  | stack, function name :: rest => postfixFrom (function name :: stack) rest
  | stack, operator symbol precedence :: rest =>
    (stack.takeWhile (yieldsTo symbol precedence) ++ ·) <$>
      postfixFrom (operator symbol precedence :: stack.dropWhile (yieldsTo symbol precedence)) rest
  | stack, paren true :: rest => postfixFrom (paren true :: stack) rest
  | stack, paren false :: rest =>
    match stack.dropWhile (!isOpening ·) with
    | [] => fail .mismatchedParentheses
    | _ :: below =>
      (stack.takeWhile (!isOpening ·) ++ (splitFunction below).1 ++ ·) <$>
        postfixFrom (splitFunction below).2 rest

/-- The postfix order of a list of tokens. -/
def toPostfix (tokens : List Token) : Except Fault (List Token) := postfixFrom [] tokens

end SciCalc.Token
