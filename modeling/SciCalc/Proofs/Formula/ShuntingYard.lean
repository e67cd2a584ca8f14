import SciCalc.Proofs.Formula.Grammar

/-! # Postfix order of derived formulas

Reading the tokens of a derivation puts out the post-order of its tree and leaves the stack of
waiting tokens as it was, provided that the derivation stands in a fitting place: what waits on
top of the stack is not put out by the operators of the category, and what follows puts out the
operators and functions that still wait.
-/

namespace SciCalc.Formula

open Token

/-- Whether a waiting token is put out at once by the tokens that follow. -/
def LeavesBefore (waiting : Token) : List Token → Prop
  | [] => waiting.isOpening = false
  | .operator symbol precedence :: _ => waiting.yieldsTo symbol precedence = true
  | .paren isOpen :: _ => isOpen = false ∧ waiting.isOpening = false
  | _ => False

theorem postfixFrom_cons_of_leavesBefore {waiting : Token} {rest : List Token}
    (stack : List Token) (hleaves : LeavesBefore waiting rest) :
    postfixFrom (waiting :: stack) rest = (waiting :: ·) <$> postfixFrom stack rest := by
  cases rest with
  | nil =>
      have hopening : waiting.isOpening = false := hleaves
      simp only [postfixFrom, List.any_cons, hopening, Bool.false_or]
      split <;> rfl
  | cons next rest =>
      cases next with
      | number value text => exact hleaves.elim
      | function name => exact hleaves.elim
      | operator symbol precedence =>
          have hyields : waiting.yieldsTo symbol precedence = true := hleaves
          simp only [postfixFrom, List.takeWhile_cons_of_pos hyields,
            List.dropWhile_cons_of_pos hyields, List.cons_append, Functor.map_map]
      | paren isOpen =>
          obtain ⟨rfl, hopening⟩ := hleaves
          simp only [postfixFrom, List.takeWhile_cons, List.dropWhile_cons, hopening,
            Bool.not_false, if_true]
          cases stack.dropWhile (!isOpening ·) with
          | nil => rfl
          | cons opening below => simp only [List.cons_append, Functor.map_map]

/-- What waits on top of the stack is not put out by an operator of the category. -/
def Holds (category : Category) (stack : List Token) : Prop :=
  ∀ top ∈ stack.head?, ∀ sign : OperatorSign, category.binding ≤ sign.category.binding →
    top.yieldsTo (String.singleton sign.char) (precedenceOf sign.char) = false

/-- What follows puts out every function and every operator of the category. -/
def Ends (category : Category) (rest : List Token) : Prop :=
  (∀ name, LeavesBefore (.function name) rest) ∧
    ∀ sign : OperatorSign, category.binding ≤ sign.category.binding →
      LeavesBefore sign.token rest

theorem Holds.mono {category tighter : Category} {stack : List Token}
    (hholds : Holds category stack) (hle : category.binding ≤ tighter.binding) :
    Holds tighter stack :=
  fun top htop sign hsign => hholds top htop sign (Int.le_trans hle hsign)

theorem Ends.mono {category tighter : Category} {rest : List Token}
    (hends : Ends category rest) (hle : category.binding ≤ tighter.binding) :
    Ends tighter rest :=
  ⟨hends.1, fun sign hsign => hends.2 sign (Int.le_trans hle hsign)⟩

theorem holds_nil (category : Category) : Holds category [] := by
  simp [Holds]

theorem holds_paren (category : Category) (stack : List Token) :
    Holds category (.paren true :: stack) := by
  simp [Holds, yieldsTo]

theorem holds_primary (stack : List Token) : Holds .primary stack :=
  fun _ _ sign hsign => absurd sign.category_lt_primary (Int.not_lt.mpr hsign)

theorem holds_operator (sign : OperatorSign) (stack : List Token) :
    Holds sign.rightCategory (sign.token :: stack) := by
  intro top htop other hother
  simp only [List.head?_cons, Option.mem_some_iff] at htop
  subst htop
  revert hother
  cases sign <;> cases other <;> decide

theorem ends_nil (category : Category) : Ends category [] :=
  ⟨fun _ => rfl, fun _ _ => rfl⟩

theorem ends_paren (category : Category) (rest : List Token) :
    Ends category (.paren false :: rest) :=
  ⟨fun _ => ⟨rfl, rfl⟩, fun _ _ => ⟨rfl, rfl⟩⟩

theorem ends_operator (sign : OperatorSign) (rest : List Token) :
    Ends sign.leftCategory (sign.token :: rest) := by
  refine ⟨fun _ => rfl, fun other hother => ?_⟩
  change other.token.yieldsTo _ _ = true
  revert hother
  cases sign <;> cases other <;> decide

/-- An operator that puts out nothing only waits. -/
theorem postfixFrom_operator_of_holds {sign : OperatorSign} {stack : List Token}
    (hholds : Holds sign.category stack) (rest : List Token) :
    postfixFrom stack (sign.token :: rest) = postfixFrom (sign.token :: stack) rest := by
  cases stack with
  | nil => simp [postfixFrom, OperatorSign.token, ofSign]
  | cons top below =>
      have htop := hholds top rfl sign (Int.le_refl _)
      simp [postfixFrom, OperatorSign.token, ofSign, htop]

/-- Reading the tokens in a fitting place puts out the post-order of the tree. -/
def Reads (category : Category) (tokens : List Token) (tree : Tree Literal) : Prop :=
  ∀ stack rest, Holds category stack → Ends category rest →
    postfixFrom stack (tokens ++ rest) = (tree.postorder ++ ·) <$> postfixFrom stack rest

namespace Reads

theorem number (literal : Literal) : Reads .primary [literal.token] (.leaf literal) :=
  fun _ _ _ _ => rfl

/-- The function in front of a closed pair of parentheses is put out at once; it would be put
out by what follows in any case. -/
theorem parens {tokens : List Token} {tree : Tree Literal} (hinner : Reads .expression tokens tree) :
    Reads .primary (.paren true :: (tokens ++ [.paren false])) tree := by
  intro stack rest _ hends
  have hread := hinner (.paren true :: stack) (.paren false :: rest) (holds_paren _ _)
    (ends_paren _ _)
  -- Nothing waits above the opening parenthesis any more, so only a function below it can leave.
  have hclose : postfixFrom (.paren true :: stack) (.paren false :: rest) =
      postfixFrom stack rest := by
    simp only [postfixFrom, isOpening, Bool.not_true, Bool.false_eq_true, not_false_eq_true,
      List.takeWhile_cons_of_neg, List.dropWhile_cons_of_neg, List.nil_append]
    cases stack with
    | nil => simp [splitFunction]
    | cons top below =>
        cases top with
        | function name =>
            rw [postfixFrom_cons_of_leavesBefore below (hends.1 name)]
            rfl
        | number value text | operator symbol precedence | paren isOpen => simp [splitFunction]
  calc
    postfixFrom stack (.paren true :: (tokens ++ [.paren false]) ++ rest)
        = postfixFrom (.paren true :: stack) (tokens ++ .paren false :: rest) := by
          simp [postfixFrom]
    _ = (tree.postorder ++ ·) <$> postfixFrom (.paren true :: stack) (.paren false :: rest) :=
          hread
    _ = (tree.postorder ++ ·) <$> postfixFrom stack rest := by rw [hclose]

/-- A function waits while its argument is read. -/
theorem apply (function : UnaryFunction) {tokens : List Token} {tree : Tree Literal}
    (hargument : Reads .primary tokens tree) :
    Reads .primary (.function function.name :: tokens) (.apply function tree) := by
  intro stack rest _ hends
  have hread := hargument (.function function.name :: stack) rest (holds_primary _) hends
  calc
    postfixFrom stack (.function function.name :: tokens ++ rest)
        = postfixFrom (.function function.name :: stack) (tokens ++ rest) := rfl
    _ = (tree.postorder ++ ·) <$> postfixFrom (.function function.name :: stack) rest := hread
    _ = ((Tree.apply function tree).postorder ++ ·) <$> postfixFrom stack rest := by
          rw [postfixFrom_cons_of_leavesBefore stack (hends.1 function.name), Functor.map_map]
          simp only [Tree.postorder, List.append_assoc, List.singleton_append]

/-- An operator waits while its right operand is read. -/
theorem binary (sign : OperatorSign) {leftTokens rightTokens : List Token}
    {left right : Tree Literal} (hleft : Reads sign.leftCategory leftTokens left)
    (hright : Reads sign.rightCategory rightTokens right) :
    Reads sign.category (leftTokens ++ sign.token :: rightTokens) (.binary sign left right) := by
  intro stack rest hholds hends
  -- The sign ends the left operand; the right one is ended by what ends the whole.
  have hreadLeft := hleft stack (sign.token :: (rightTokens ++ rest))
    (hholds.mono sign.category_le_leftCategory) (ends_operator sign _)
  have hreadRight := hright (sign.token :: stack) rest (holds_operator sign stack)
    (hends.mono sign.category_le_rightCategory)
  calc
    postfixFrom stack (leftTokens ++ sign.token :: rightTokens ++ rest)
        = (left.postorder ++ ·) <$>
            postfixFrom stack (sign.token :: (rightTokens ++ rest)) := by
          rw [List.append_assoc, List.cons_append, hreadLeft]
    _ = (left.postorder ++ ·) <$> (right.postorder ++ ·) <$>
            postfixFrom (sign.token :: stack) rest := by
          rw [postfixFrom_operator_of_holds hholds, hreadRight]
    _ = ((Tree.binary sign left right).postorder ++ ·) <$> postfixFrom stack rest := by
          rw [postfixFrom_cons_of_leavesBefore stack (hends.2 sign (Int.le_refl _)), Functor.map_map,
            Functor.map_map]
          simp only [Tree.postorder, List.append_assoc, List.singleton_append]

end Reads

/-- A derivation is read as the tree that it builds. -/
theorem Derives.reads {category : Category} {tokens : List Token} {tree : Tree Literal}
    (hderives : Derives category tokens tree) : Reads category tokens tree := by
  induction hderives with
  | number literal => exact .number literal
  | parens _ ih => exact ih.parens
  | apply function _ ih => exact ih.apply function
  | binary sign _ _ ihleft ihright => exact ihleft.binary sign ihright
  | @loosen category _ _ _ ih =>
      exact fun stack rest hholds hends =>
        ih stack rest (hholds.mono category.binding_looser_le)
          (hends.mono category.binding_looser_le)

theorem Derives.toPostfix_eq {tokens : List Token} {tree : Tree Literal}
    (hderives : Derives .expression tokens tree) : toPostfix tokens = .ok tree.postorder := by
  have hread := hderives.reads [] [] (holds_nil _) (ends_nil _)
  simpa [toPostfix, postfixFrom] using hread

end SciCalc.Formula
