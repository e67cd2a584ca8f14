import Mathlib.Data.List.Perm.Basic
import SciCalc.Proofs.Formula.Nesting
import SciCalc.Proofs.Formula.StackHeight

/-! # Which lists have a postfix order

A list of tokens need not come from a text: precedences may be any integers, symbols and names any
texts, and parentheses may stand anywhere. It has a postfix order exactly if its parentheses are
balanced. The postfix order is then a rearrangement of all that is no parenthesis, in which the
numbers keep their order.
-/

namespace SciCalc.Token

/-- From the left, no more parentheses are closed than have been opened, and all of them are closed
in the end. -/
def IsBalanced (tokens : List Token) : Prop :=
  (∀ start, start <+: tokens → start.count (paren false) ≤ start.count (paren true)) ∧
    tokens.count (paren false) = tokens.count (paren true)

/-! ## Balanced parentheses -/

/-- Reading step by step compares every prefix with the parentheses that are open before it. -/
theorem closes_iff {depth : Nat} {tokens : List Token} :
    Closes depth tokens ↔
      (∀ start, start <+: tokens →
        start.count (paren false) ≤ depth + start.count (paren true)) ∧
      tokens.count (paren false) = depth + tokens.count (paren true) := by
  induction tokens generalizing depth with
  | nil =>
      simp only [Closes, List.prefix_nil, forall_eq, List.count_nil, Nat.add_zero, Nat.zero_le,
        true_and]
      exact eq_comm
  | cons token rest ih =>
      simp only [Parentheses.forall_prefix_cons, List.count_nil, Nat.zero_le, true_and]
      rcases token with _ | _ | _ | (_ | _)
      case paren.false =>
        simp only [List.count_cons_self,
          List.count_cons_of_ne (by decide : paren false ≠ paren true)]
        cases depth with
        | zero =>
            -- The first token alone is a prefix that closes too much.
            refine iff_of_false id fun hbalanced => ?_
            exact absurd (hbalanced.1 [] List.nil_prefix) (by simp)
        | succ depth =>
            rw [Closes, ih]
            refine and_congr (forall₂_congr fun start _ => ?_) ?_ <;> omega
      case paren.true =>
        simp only [List.count_cons_self,
          List.count_cons_of_ne (by decide : paren true ≠ paren false)]
        rw [Closes, ih]
        refine and_congr (forall₂_congr fun start _ => ?_) ?_ <;> omega
      all_goals
        simp only [List.count_cons_of_ne, ne_eq, reduceCtorEq, not_false_eq_true]
        exact ih

theorem closes_zero_iff {tokens : List Token} : Closes 0 tokens ↔ IsBalanced tokens := by
  simp only [closes_iff, Nat.zero_add, IsBalanced]

/-- A list has a postfix order if and only if its parentheses are balanced. -/
theorem exists_toPostfix_iff {tokens : List Token} :
    (∃ ordered, toPostfix tokens = .ok ordered) ↔ IsBalanced tokens := by
  rw [← closes_zero_iff]
  constructor
  · rintro ⟨ordered, hordered⟩
    exact closes_of_postfixFrom hordered
  · intro hcloses
    exact exists_postfixFrom_of_closes (show Closes ([].countP isOpening) tokens from hcloses)

/-! ## What is reported -/

/-- The postfix order fails for no other reason than the parentheses. -/
theorem fault_of_postfixFrom {stack tokens : List Token} {fault : Fault}
    (hfault : postfixFrom stack tokens = .error fault) :
    fault = .calculation (.ofKind .mismatchedParentheses) := by
  fun_induction postfixFrom stack tokens with
  | case1 stack hopening => exact (Except.error.inj hfault).symm
  | case2 stack hopening => cases hfault
  | case3 stack value text rest ih => exact ih (map_eq_error_iff.mp hfault)
  | case4 stack name rest ih => exact ih hfault
  | case5 stack symbol precedence rest ih => exact ih (map_eq_error_iff.mp hfault)
  | case6 stack rest ih => exact ih hfault
  | case7 stack rest hnone => exact (Except.error.inj hfault).symm
  | case8 stack rest opening below hbelow ih => exact ih (map_eq_error_iff.mp hfault)

/-! ## What is put out -/

/-- What is put out is what waits and is read, but for the parentheses. -/
theorem perm_toPostfix {tokens ordered : List Token} (hordered : toPostfix tokens = .ok ordered) :
    ordered.Perm (tokens.filter fun token => !token.isParen) := by
  rw [List.perm_iff_count]
  intro token
  cases hparen : token.isParen with
  | true =>
      -- A parenthesis is neither put out nor kept by the filter.
      have hnone := isParen_of_mem_postfixFrom (List.forall_mem_nil _) hordered
      rw [List.count_eq_zero.mpr fun hmem => by simp [hnone token hmem] at hparen,
        List.count_eq_zero.mpr fun hmem => by simp [hparen] at hmem]
  | false =>
      have hcount := countP_postfixFrom (p := (· == token)) (by
        intro isOpen
        rw [beq_eq_false_iff_ne]
        rintro rfl
        exact absurd hparen Bool.noConfusion) hordered
      rw [List.countP_nil, Nat.zero_add] at hcount
      rw [List.count_filter (by simp [hparen])]
      exact hcount

theorem isNumber_of_yieldsTo {symbol : String} {precedence : Int} {token : Token}
    (hyields : yieldsTo symbol precedence token = true) : token.isNumber = false := by
  cases token <;> simp_all [yieldsTo, isNumber]

/-- No number ever waits, so the numbers are put out as they are read. -/
theorem filter_isNumber_postfixFrom {stack tokens ordered : List Token}
    (hstack : ∀ token ∈ stack, token.isNumber = false)
    (hordered : postfixFrom stack tokens = .ok ordered) :
    ordered.filter isNumber = tokens.filter isNumber := by
  -- What is put out from the stack does not count, wherever the stack is cut.
  have hnothing : ∀ {waiting : List Token}, (∀ token ∈ waiting, token.isNumber = false) →
      waiting.filter isNumber = [] := by
    intro waiting hwaiting
    simpa [List.filter_eq_nil_iff] using hwaiting
  fun_induction postfixFrom stack tokens generalizing ordered with
  | case1 stack hopening => simp at hordered
  | case2 stack hopening =>
      obtain rfl := Except.ok.inj hordered
      exact hnothing hstack
  | case3 stack value text rest ih =>
      obtain ⟨tail, htail, rfl⟩ := map_eq_ok_iff.mp hordered
      rw [List.filter_cons_of_pos rfl, List.filter_cons_of_pos rfl, ih hstack htail]
  | case4 stack name rest ih =>
      exact ih (List.forall_mem_cons.mpr ⟨rfl, hstack⟩) hordered
  | case5 stack symbol precedence rest ih =>
      obtain ⟨tail, htail, rfl⟩ := map_eq_ok_iff.mp hordered
      have hput := hnothing
        fun token (hmem : token ∈ stack.takeWhile (yieldsTo symbol precedence)) =>
          isNumber_of_yieldsTo (List.all_eq_true.mp List.all_takeWhile token hmem)
      have hwaiting : ∀ token ∈ stack.dropWhile (yieldsTo symbol precedence),
          token.isNumber = false :=
        fun token hmem => hstack token ((List.dropWhile_suffix _).subset hmem)
      rw [List.filter_append, hput, List.nil_append,
        ih (List.forall_mem_cons.mpr ⟨rfl, hwaiting⟩) htail]
      rfl
  | case6 stack rest ih =>
      exact ih (List.forall_mem_cons.mpr ⟨rfl, hstack⟩) hordered
  | case7 stack rest hnone => simp at hordered
  | case8 stack rest opening below hbelow ih =>
      obtain ⟨tail, htail, rfl⟩ := map_eq_ok_iff.mp hordered
      have hbelowMem : ∀ token ∈ below, token.isNumber = false := fun token hmem => hstack token
        ((List.dropWhile_suffix _).subset (hbelow ▸ List.mem_cons_of_mem opening hmem))
      have habove := hnothing fun token (hmem : token ∈ stack.takeWhile (!isOpening ·)) =>
        hstack token ((List.takeWhile_prefix _).subset hmem)
      have hfront : (splitFunction below).1.filter isNumber = [] := by
        unfold splitFunction
        split <;> rfl
      have hwaiting : ∀ token ∈ (splitFunction below).2, token.isNumber = false :=
        fun token hmem => hbelowMem token (mem_of_mem_splitFunction hmem)
      rw [List.filter_append, List.filter_append, habove, hfront, ih hwaiting htail]
      rfl

/-- A list of tokens has a postfix order unless its parentheses are not balanced, and that is then
reported. The postfix order holds every token that is no parenthesis as often as the list does, the
numbers in their order, and nothing else. -/
theorem toPostfix_verdict (tokens : List Token) :
    (toPostfix tokens = fail .mismatchedParentheses ↔ ¬ IsBalanced tokens) ∧
      (∀ fault, toPostfix tokens = .error fault →
        fault = .calculation (.ofKind .mismatchedParentheses)) ∧
      ∀ ordered, toPostfix tokens = .ok ordered →
        ordered.Perm (tokens.filter fun token => !token.isParen) ∧
          ordered.filter isNumber = tokens.filter isNumber ∧
          (∀ token, token.isParen = false → ordered.count token = tokens.count token) ∧
          ∀ token ∈ ordered, token.isParen = false := by
  refine ⟨?_, fun fault => fault_of_postfixFrom, fun ordered hordered => ?_⟩
  · rw [← exists_toPostfix_iff]
    constructor
    · rintro hfail ⟨ordered, hordered⟩
      exact absurd (hfail.symm.trans hordered) (fail_ne_ok _ _)
    · intro hnone
      cases hordered : toPostfix tokens with
      | ok ordered => exact absurd ⟨ordered, hordered⟩ hnone
      | error fault => rw [fault_of_postfixFrom hordered, fail]
  · have hperm := perm_toPostfix hordered
    refine ⟨hperm, filter_isNumber_postfixFrom (List.forall_mem_nil _) hordered, ?_,
      isParen_of_mem_postfixFrom (List.forall_mem_nil _) hordered⟩
    intro token hparen
    rw [hperm.count_eq, List.count_filter (by simp [hparen])]

/-- Precedences that no sign has, a function without an argument and parentheses around nothing: the
weaker of the two operators is put out last. -/
example : toPostfix [.paren true, .paren false, .operator "?" (-7), .number (Double.ofNat 1) none,
      .operator "^" 40, .function "sin"] =
    .ok [.number (Double.ofNat 1) none, .function "sin", .operator "^" 40, .operator "?" (-7)] := by
  decide

end SciCalc.Token
