import SciCalc.Failure
import SciCalc.Settings

/-! # Nesting of parentheses

Reading a text from the left, the depth goes up by one at an opening parenthesis and down by
one at a closing one; no other character counts. A text breaks the rules where the depth would
go below zero or above the greatest depth, and a complete formula must end at depth zero.
-/

namespace SciCalc.Parentheses

/-- How a text breaks the rules of nesting. -/
inductive Violation where
  /-- A closing parenthesis has no partner before it. -/
  | unopened
  /-- An opening parenthesis is nested too deep. -/
  | tooDeep
  deriving DecidableEq

/-- The depth at the end of a text that begins at the given depth, or the first violation. -/
def depthFrom : Nat → List Char → Except Violation Nat
  | depth, [] => .ok depth
  | depth, c :: rest =>
    if c = '(' then
      if depth < Settings.greatestDepth then depthFrom (depth + 1) rest else .error .tooDeep
    else if c = ')' then
      match depth with
      | 0 => .error .unopened
      | outer + 1 => depthFrom outer rest
    else depthFrom depth rest

/-- The depth at the end of a text, or the first violation. -/
def depth (text : String) : Except Violation Nat := depthFrom 0 text.toList

/-- The message for a text that is nested too deep. -/
def depthMessage : String :=
  "Máximo " ++ toString Settings.greatestDepth ++ " niveles de paréntesis"

/-- Accepts a text whose parentheses are balanced and not nested too deep. -/
def validate (text : String) : Except Fault Unit :=
  match depth text with
  | .ok 0 => .ok ()
  | .ok _ => fail .mismatchedParentheses
  | .error .unopened => fail .mismatchedParentheses
  | .error .tooDeep => failWith .mismatchedParentheses depthMessage

end SciCalc.Parentheses
