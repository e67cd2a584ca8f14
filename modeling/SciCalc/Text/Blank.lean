/-! # Blank characters

The white space that separates the parts of a formula and that surrounds a line or a number:
the separators of Unicode, the ASCII controls from tab to carriage return and from the file
separator to the unit separator, and the next-line control.
-/

namespace SciCalc.Text

def isBlank (c : Char) : Bool :=
  let code := c.toNat
  (0x9 ≤ code && code ≤ 0xD) || (0x1C ≤ code && code ≤ 0x20) || code == 0x85 || code == 0xA0 ||
    code == 0x1680 || (0x2000 ≤ code && code ≤ 0x200A) || code == 0x2028 || code == 0x2029 ||
    code == 0x202F || code == 0x205F || code == 0x3000

/-- The list without the elements at its end that satisfy the predicate. -/
def dropTrailing {α : Type} (drops : α → Bool) (xs : List α) : List α :=
  (xs.reverse.dropWhile drops).reverse

/-- The list without the elements at its start and at its end that satisfy the predicate. -/
def trimBoth {α : Type} (drops : α → Bool) (xs : List α) : List α :=
  dropTrailing drops (xs.dropWhile drops)

def trim (text : String) : String :=
  String.ofList (trimBoth isBlank text.toList)

def isAllBlank (text : String) : Bool :=
  text.toList.all isBlank

end SciCalc.Text
