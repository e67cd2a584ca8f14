import SciCalc.Proofs.Formula.Tree

/-! # The infix grammar

The grammar over tokens has four categories, from the one that binds most loosely to the one
that binds most strongly:

    expression ::= term    | expression ('+' | '-') term
    term       ::= factor  | term ('×' | '*' | '÷' | '/') factor
    factor     ::= primary | primary '^' factor
    primary    ::= number  | '(' expression ')' | function primary

The three rules with an operator are one rule here: the operator sign says which category the
whole belongs to and which categories its operands belong to. Only the sign `^` groups from the
right, so its left operand is a primary and its right one a factor.
-/

namespace SciCalc.Formula

/-- The categories of the grammar. -/
inductive Category where
  | expression
  | term
  | factor
  | primary
  deriving DecidableEq

namespace Category

/-- How strongly the category binds. -/
def binding : Category → Int
  | expression => 1
  | term => 2
  | factor => 3
  | primary => 4

/-- The category that holds everything of the given one and binds less strongly. -/
def looser : Category → Category
  | expression | term => expression
  | factor => term
  | primary => factor

theorem binding_looser_le (category : Category) : category.looser.binding ≤ category.binding := by
  cases category <;> decide

end Category

namespace OperatorSign

/-- The category of an operation with the sign. -/
def category : OperatorSign → Category
  | plus | minus => .expression
  | times | asterisk | obelus | slash => .term
  | caret => .factor

/-- The category of the left operand. -/
def leftCategory : OperatorSign → Category
  | plus | minus => .expression
  | times | asterisk | obelus | slash => .term
  | caret => .primary

/-- The category of the right operand. -/
def rightCategory : OperatorSign → Category
  | plus | minus => .term
  | times | asterisk | obelus | slash => .factor
  | caret => .factor

theorem category_le_leftCategory (sign : OperatorSign) :
    sign.category.binding ≤ sign.leftCategory.binding := by
  cases sign <;> decide

theorem category_le_rightCategory (sign : OperatorSign) :
    sign.category.binding ≤ sign.rightCategory.binding := by
  cases sign <;> decide

theorem category_lt_primary (sign : OperatorSign) :
    sign.category.binding < Category.primary.binding := by
  cases sign <;> decide

end OperatorSign

/-- The derivations of the grammar, each with the tree that it builds. -/
inductive Derives : Category → List Token → Tree Literal → Prop where
  | number (literal : Literal) : Derives .primary [literal.token] (.leaf literal)
  | parens {tokens : List Token} {tree : Tree Literal} (inner : Derives .expression tokens tree) :
      Derives .primary (.paren true :: (tokens ++ [.paren false])) tree
  | apply (function : UnaryFunction) {tokens : List Token} {tree : Tree Literal}
      (argument : Derives .primary tokens tree) :
      Derives .primary (.function function.name :: tokens) (.apply function tree)
  | binary (sign : OperatorSign) {leftTokens rightTokens : List Token} {left right : Tree Literal}
      (hleft : Derives sign.leftCategory leftTokens left)
      (hright : Derives sign.rightCategory rightTokens right) :
      Derives sign.category (leftTokens ++ sign.token :: rightTokens) (.binary sign left right)
  | loosen {category : Category} {tokens : List Token} {tree : Tree Literal}
      (inner : Derives category tokens tree) : Derives category.looser tokens tree

namespace Derives

/-- What belongs to a category belongs to every category that binds less strongly. -/
theorem weaken {category looser : Category} {tokens : List Token} {tree : Tree Literal}
    (hderives : Derives category tokens tree) (hle : looser.binding ≤ category.binding) :
    Derives looser tokens tree := by
  cases category with
  | expression =>
      cases looser with
      | expression => exact hderives
      | term | factor | primary => exact absurd hle (by decide)
  | term =>
      cases looser with
      | expression => exact hderives.loosen
      | term => exact hderives
      | factor | primary => exact absurd hle (by decide)
  | factor =>
      cases looser with
      | expression => exact hderives.loosen.loosen
      | term => exact hderives.loosen
      | factor => exact hderives
      | primary => exact absurd hle (by decide)
  | primary =>
      cases looser with
      | expression => exact hderives.loosen.loosen.loosen
      | term => exact hderives.loosen.loosen
      | factor => exact hderives.loosen
      | primary => exact hderives

/-- A sign that binds less strongly than a category, but not less than the next looser one, makes
its operation there and takes the category as its left operand. -/
theorem category_eq_looser {category : Category} {sign : OperatorSign}
    (hlooser : category.looser.binding ≤ sign.category.binding)
    (hstronger : sign.category.binding < category.binding) :
    sign.category = category.looser ∧ sign.leftCategory.binding ≤ category.binding := by
  revert hlooser hstronger
  cases category <;> cases sign <;> decide

/-- A sign that binds less strongly than the right operand of an operation, but not less than the
operation, takes the operation as its left operand. -/
theorem category_eq_category {inner sign : OperatorSign}
    (hweaker : inner.category.binding ≤ sign.category.binding)
    (hstronger : sign.category.binding < inner.rightCategory.binding) :
    sign.category = inner.category ∧ sign.leftCategory.binding ≤ inner.category.binding := by
  revert hweaker hstronger
  cases inner <;> cases sign <;> decide

/-- An expression can be continued by any operator sign and a primary. The new operation takes
its place in the tree by how strongly it binds. -/
theorem append_sign {category : Category} {tokens operandTokens : List Token}
    {tree operand : Tree Literal} (hderives : Derives category tokens tree)
    (hoperand : Derives .primary operandTokens operand) (sign : OperatorSign)
    (hle : category.binding ≤ sign.category.binding) :
    ∃ whole, Derives category (tokens ++ sign.token :: operandTokens) whole := by
  have hright : Derives sign.rightCategory operandTokens operand :=
    hoperand.weaken (by cases sign <;> decide)
  induction hderives with
  | number | parens | apply => exact absurd sign.category_lt_primary (Int.not_lt.mpr hle)
  | @loosen category tokens tree inner ih =>
      by_cases hinner : category.binding ≤ sign.category.binding
      · obtain ⟨whole, hwhole⟩ := ih hinner
        exact ⟨whole, hwhole.loosen⟩
      · -- The operation begins here, with all that was read so far on its left.
        obtain ⟨hsign, hleft⟩ := category_eq_looser hle (Int.not_le.mp hinner)
        rw [← hsign]
        exact ⟨_, .binary sign (inner.weaken hleft) hright⟩
  | binary inner hleft hinnerRight ihleft ihright =>
      by_cases hdeep : inner.rightCategory.binding ≤ sign.category.binding
      · -- The operation lies inside the right operand.
        obtain ⟨whole, hwhole⟩ := ihright hdeep
        exact ⟨_, by simpa using Derives.binary inner hleft hwhole⟩
      · obtain ⟨hsign, hwhole⟩ := category_eq_category hle (Int.not_le.mp hdeep)
        rw [← hsign]
        exact ⟨_, .binary sign ((Derives.binary inner hleft hinnerRight).weaken hwhole) hright⟩

end Derives

end SciCalc.Formula
