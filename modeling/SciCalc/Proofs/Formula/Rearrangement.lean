import Mathlib.Data.List.TakeWhile
import SciCalc.Formula.Postfix
import SciCalc.Proofs.Outcome

/-! # What the postfix order keeps

Putting tokens in postfix order only moves them: every token that is not a parenthesis is put
out as often as it is read. It succeeds only if each parenthesis finds its partner.
-/

namespace SciCalc.Token

/-- The parentheses of the tokens close exactly the given number of open ones and each other. -/
def Closes : Nat → List Token → Prop
  | depth, [] => depth = 0
  | depth, paren true :: rest => Closes (depth + 1) rest
  | 0, paren false :: _ => False
  | depth + 1, paren false :: rest => Closes depth rest
  | depth, number _ _ :: rest => Closes depth rest
  | depth, operator _ _ :: rest => Closes depth rest
  | depth, function _ :: rest => Closes depth rest

/-- The opening parenthesis that a closing one finds, and what waits above and below it. -/
theorem eq_append_of_dropWhile {stack below : List Token} {opening : Token}
    (hfound : stack.dropWhile (!isOpening ·) = opening :: below) :
    stack = stack.takeWhile (!isOpening ·) ++ paren true :: below := by
  have hopening : opening = paren true := by
    have hhead := List.head?_dropWhile_not (!isOpening ·) stack
    rw [hfound] at hhead
    cases opening with
    | paren isOpen => simpa [isOpening] using hhead
    | number value text | operator symbol precedence | function name =>
        simp [isOpening] at hhead
  rw [← hopening, ← hfound, List.takeWhile_append_dropWhile]

section Counting

variable {p : Token → Bool}

theorem countP_takeWhile_add_countP_dropWhile (q : Token → Bool) (stack : List Token) :
    (stack.takeWhile q).countP p + (stack.dropWhile q).countP p = stack.countP p := by
  rw [← List.countP_append, List.takeWhile_append_dropWhile]

theorem countP_splitFunction (stack : List Token) :
    (splitFunction stack).1.countP p + (splitFunction stack).2.countP p = stack.countP p := by
  cases stack with
  | nil => rfl
  | cons top below =>
      cases top with
      | function name =>
          rw [splitFunction, ← List.countP_append, List.singleton_append]
      | number value text | operator symbol precedence | paren isOpen => simp [splitFunction]

/-- Every token that is not a parenthesis is put out as often as it waits and is read. -/
theorem countP_postfixFrom (hparen : ∀ isOpen, p (paren isOpen) = false)
    {stack tokens ordered : List Token} (hordered : postfixFrom stack tokens = .ok ordered) :
    ordered.countP p = stack.countP p + tokens.countP p := by
  induction tokens generalizing stack ordered with
  | nil =>
      simp only [postfixFrom] at hordered
      split at hordered
      · simp at hordered
      · obtain rfl : stack = ordered := by simpa using hordered
        simp
  | cons token rest ih =>
      cases token with
      | number value text =>
          obtain ⟨tail, htail, rfl⟩ := map_eq_ok_iff.mp hordered
          rw [List.countP_cons, List.countP_cons, ih htail]
          omega
      | function name =>
          rw [ih hordered, List.countP_cons, List.countP_cons]
          omega
      | operator symbol precedence =>
          obtain ⟨tail, htail, rfl⟩ := map_eq_ok_iff.mp hordered
          have hstack := countP_takeWhile_add_countP_dropWhile (p := p)
            (yieldsTo symbol precedence) stack
          rw [List.countP_append, ih htail, List.countP_cons, List.countP_cons]
          omega
      | paren isOpen =>
          cases isOpen with
          | true =>
              rw [ih hordered, List.countP_cons, List.countP_cons, hparen]
              simp
          | false =>
              simp only [postfixFrom] at hordered
              split at hordered
              · simp at hordered
              next opening below hbelow =>
                obtain ⟨tail, htail, rfl⟩ := map_eq_ok_iff.mp hordered
                have hstack := congrArg (List.countP p) (eq_append_of_dropWhile hbelow)
                have hsplit := countP_splitFunction (p := p) below
                simp only [List.countP_append, List.countP_cons, hparen, ih htail] at hstack ⊢
                simp only [Bool.false_eq_true, if_false] at hstack ⊢
                omega

end Counting

/-! ## Open parentheses -/

/-- No opening parenthesis yields to an operator, so all of them still wait. -/
theorem countP_isOpening_dropWhile_yieldsTo (symbol : String) (precedence : Int)
    (stack : List Token) :
    (stack.dropWhile (yieldsTo symbol precedence)).countP isOpening = stack.countP isOpening := by
  have hput : (stack.takeWhile (yieldsTo symbol precedence)).countP isOpening = 0 := by
    rw [List.countP_eq_zero]
    intro waiting hwaiting
    have hyields := List.all_eq_true.mp List.all_takeWhile _ hwaiting
    cases waiting <;> simp_all [yieldsTo, isOpening]
  have hstack := countP_takeWhile_add_countP_dropWhile (p := isOpening)
    (yieldsTo symbol precedence) stack
  rwa [hput, Nat.zero_add] at hstack

/-- A closing parenthesis takes one opening parenthesis away: the one that it finds. -/
theorem countP_isOpening_of_found {stack below : List Token} {opening : Token}
    (hfound : stack.dropWhile (!isOpening ·) = opening :: below) :
    stack.countP isOpening = (splitFunction below).2.countP isOpening + 1 := by
  have habove : (stack.takeWhile (!isOpening ·)).countP isOpening = 0 := by
    rw [List.countP_eq_zero]
    intro waiting hwaiting
    simpa using List.all_eq_true.mp List.all_takeWhile _ hwaiting
  have hfront : (splitFunction below).1.countP isOpening = 0 := by
    cases below with
    | nil => rfl
    | cons top rest => cases top <;> rfl
  have hstack := congrArg (List.countP isOpening) (eq_append_of_dropWhile hfound)
  have hsplit := countP_splitFunction (p := isOpening) below
  rw [List.countP_append, habove, Nat.zero_add, List.countP_cons_of_pos rfl] at hstack
  rw [hfront, Nat.zero_add] at hsplit
  rw [hstack, hsplit]

/-- Parentheses are balanced wherever the postfix order exists. -/
theorem closes_of_postfixFrom {stack tokens ordered : List Token}
    (hordered : postfixFrom stack tokens = .ok ordered) :
    Closes (stack.countP isOpening) tokens := by
  fun_induction postfixFrom stack tokens generalizing ordered with
  | case1 stack hopening => simp at hordered
  | case2 stack hopening => simpa [Closes, List.countP_eq_zero] using hopening
  | case3 stack value text rest ih =>
      obtain ⟨tail, htail, -⟩ := map_eq_ok_iff.mp hordered
      exact ih htail
  | case4 stack name rest ih => simpa [Closes, isOpening] using ih hordered
  | case5 stack symbol precedence rest ih =>
      obtain ⟨tail, htail, -⟩ := map_eq_ok_iff.mp hordered
      have hrest := ih htail
      rw [List.countP_cons_of_neg (by simp [isOpening]),
        countP_isOpening_dropWhile_yieldsTo] at hrest
      exact hrest
  | case6 stack rest ih =>
      have hrest := ih hordered
      rwa [List.countP_cons_of_pos rfl] at hrest
  | case7 stack rest hnone => simp at hordered
  | case8 stack rest opening below hbelow ih =>
      obtain ⟨tail, htail, -⟩ := map_eq_ok_iff.mp hordered
      rw [countP_isOpening_of_found hbelow]
      exact ih htail

/-- The postfix order exists wherever parentheses are balanced. -/
theorem exists_postfixFrom_of_closes {stack tokens : List Token}
    (hcloses : Closes (stack.countP isOpening) tokens) :
    ∃ ordered, postfixFrom stack tokens = .ok ordered := by
  fun_induction postfixFrom stack tokens with
  | case1 stack hopening =>
      obtain ⟨token, hmem, htoken⟩ := List.any_eq_true.mp hopening
      exact absurd htoken (List.countP_eq_zero.mp hcloses token hmem)
  | case2 stack hopening => exact ⟨stack, rfl⟩
  | case3 stack value text rest ih =>
      obtain ⟨tail, htail⟩ := ih hcloses
      exact ⟨_, map_eq_ok_iff.mpr ⟨tail, htail, rfl⟩⟩
  | case4 stack name rest ih => exact ih (by simpa [Closes, isOpening] using hcloses)
  | case5 stack symbol precedence rest ih =>
      obtain ⟨tail, htail⟩ := ih (by
        rw [List.countP_cons_of_neg (by simp [isOpening]), countP_isOpening_dropWhile_yieldsTo]
        exact hcloses)
      exact ⟨_, map_eq_ok_iff.mpr ⟨tail, htail, rfl⟩⟩
  | case6 stack rest ih =>
      apply ih
      rw [List.countP_cons_of_pos rfl]
      exact hcloses
  | case7 stack rest hnone =>
      -- No opening parenthesis waits, so the closing one has no partner.
      have hnothing : stack.countP isOpening = 0 := by
        rw [List.countP_eq_zero]
        simpa using List.dropWhile_eq_nil_iff.mp hnone
      rw [hnothing] at hcloses
      exact hcloses.elim
  | case8 stack rest opening below hbelow ih =>
      rw [countP_isOpening_of_found hbelow] at hcloses
      obtain ⟨tail, htail⟩ := ih hcloses
      exact ⟨_, map_eq_ok_iff.mpr ⟨tail, htail, rfl⟩⟩

end SciCalc.Token
