import SciCalc.Proofs.Formula.Meaning
import SciCalc.Proofs.Formula.OperationErrors
import SciCalc.Proofs.Formula.Rearrangement

/-! # Acceptance

No stage of an evaluation compares a formula with the grammar. A formula is refused only because
values are missing on the stack or are left over. This suffices where no two numbers stand side
by side: between operands that meet in any other way a multiplication is understood, so the only
possible fault is an operand that is missing, and each missing operand leaves one value too few.
-/

namespace SciCalc.Formula

open Token

/-! ## Missing operands -/

/-- No two numbers stand side by side. -/
def NumbersApart (tokens : List Token) : Prop :=
  tokens.IsChain fun first second => first.isNumber = false ∨ second.isNumber = false

instance (tokens : List Token) : Decidable (NumbersApart tokens) :=
  inferInstanceAs (Decidable (tokens.IsChain _))

/-- Whether an operand may end with the token. -/
def endsOperand : Token → Bool
  | number _ _ => true
  | paren isOpen => !isOpen
  | _ => false

/-- Whether an operand may start with the token. -/
def startsOperand : Token → Bool
  | number _ _ => true
  | function _ => true
  | paren isOpen => isOpen
  | operator _ _ => false

/-- No operand starts right where another one has ended. -/
def OperandsApart : (ended : Bool) → List Token → Prop
  | _, [] => True
  | ended, token :: rest =>
    (ended = true → startsOperand token = false) ∧ OperandsApart (endsOperand token) rest

/-- How many operands are missing in the tokens, read from a place where an operand has ended or
where one is expected. -/
def missing : (ended : Bool) → List Token → Nat
  | ended, [] => if ended then 0 else 1
  | ended, token :: rest =>
    (if ended || startsOperand token then 0 else 1) + missing (endsOperand token) rest

/-- How many times two numbers stand side by side. -/
def touching : List Token → Nat
  | first :: second :: rest =>
    (if first.isNumber && second.isNumber then 1 else 0) + touching (second :: rest)
  | _ => 0

theorem touching_eq_zero_iff {tokens : List Token} : touching tokens = 0 ↔ NumbersApart tokens := by
  induction tokens with
  | nil => simp [touching, NumbersApart]
  | cons first rest ih =>
      cases rest with
      | nil => simp [touching, NumbersApart]
      | cons second rest =>
          rw [touching, Nat.add_eq_zero_iff, ih, NumbersApart, NumbersApart,
            List.isChain_cons_cons]
          cases first.isNumber <;> cases second.isNumber <;> simp

theorem operandsApart_of_spaced {previous : Token} {tokens : List Token}
    (hspaced : Spaced (some previous) tokens) (hapart : NumbersApart (previous :: tokens)) :
    OperandsApart (endsOperand previous) tokens := by
  induction tokens generalizing previous with
  | nil => trivial
  | cons token rest ih =>
      obtain ⟨htimes, hrest⟩ := hspaced
      obtain ⟨hpair, htail⟩ := List.isChain_cons_cons.mp hapart
      refine ⟨fun hended => ?_, ih hrest htail⟩
      cases previous <;> cases token <;>
        simp_all [endsOperand, startsOperand, impliesTimes, Token.isNumber]

/-- Where no multiplication is left to be understood, only numbers can touch. -/
theorem operandsApart_of_settled {tokens : List Token} (hsettled : Settled none tokens)
    (hapart : NumbersApart tokens) : OperandsApart false tokens := by
  cases tokens with
  | nil => trivial
  | cons token rest =>
      exact ⟨fun hended => absurd hended Bool.false_ne_true,
        operandsApart_of_spaced hsettled.2.2 hapart⟩

/-- What one token adds to the numbers, the missing operands, the operators and the numbers side by
side, if no multiplication is understood before it. -/
theorem balance_of_not_impliesTimes {previous token : Token}
    (htimes : impliesTimes (some previous) token = false) :
    (if token.isNumber then 1 else 0) +
          (if endsOperand previous || startsOperand token then 0 else 1) +
        (if endsOperand previous then 1 else 0) =
      (if token.isOperator then 1 else 0) +
          (if previous.isNumber && token.isNumber then 1 else 0) +
        (if endsOperand token then 1 else 0) := by
  cases previous with
  | paren isOpen =>
      cases token with
      | paren opens => cases isOpen <;> cases opens <;> first | rfl | cases htimes
      | number value text | operator symbol precedence | function name =>
          cases isOpen <;> first | rfl | cases htimes
  | number value text | operator symbol precedence | function name =>
      cases token with
      | paren opens => cases opens <;> first | rfl | cases htimes
      | number value text | operator symbol precedence | function name =>
          first | rfl | cases htimes

/-- Each missing operand is a value too few for the operators, and each two numbers side by side
are a value too many. -/
theorem countP_add_missing_of_spaced {previous : Token} {tokens : List Token}
    (hspaced : Spaced (some previous) tokens) :
    tokens.countP Token.isNumber + missing (endsOperand previous) tokens +
        (if endsOperand previous then 1 else 0) =
      tokens.countP Token.isOperator + 1 + touching (previous :: tokens) := by
  induction tokens generalizing previous with
  | nil => cases endsOperand previous <;> simp [missing, touching]
  | cons token rest ih =>
      obtain ⟨htimes, hrest⟩ := hspaced
      have hhere := balance_of_not_impliesTimes htimes
      have hthere := ih hrest
      simp only [List.countP_cons, missing, touching]
      omega

theorem countP_add_missing {tokens : List Token} (hspaced : Spaced none tokens) :
    tokens.countP Token.isNumber + missing false tokens =
      tokens.countP Token.isOperator + 1 + touching tokens := by
  -- The start of the tokens is like the place behind an opening parenthesis.
  have hopening : Spaced (some (paren true)) tokens ∧
      touching (paren true :: tokens) = touching tokens := by
    cases tokens with
    | nil => exact ⟨trivial, rfl⟩
    | cons token rest =>
        exact ⟨⟨impliesTimes_after_opening token, hspaced.2⟩,
          by simp [touching, Token.isNumber]⟩
  have hcount := countP_add_missing_of_spaced hopening.1
  rwa [hopening.2] at hcount

/-! ## Derivations -/

/-- What may follow an operand inside the given number of open parentheses. -/
inductive Follows : Nat → List Token → Prop where
  | done : Follows 0 []
  | sign (sign : OperatorSign) {depth : Nat} {operandTokens rest : List Token}
      {operand : Tree Literal} (hoperand : Derives .primary operandTokens operand)
      (hrest : Follows depth rest) : Follows depth (sign.token :: (operandTokens ++ rest))
  | closing {depth : Nat} {rest : List Token} (hrest : Follows depth rest) :
      Follows (depth + 1) (paren false :: rest)

/-- Outside of all parentheses an expression takes up everything that may follow it. -/
theorem Follows.exists_derives {rest tokens : List Token} {tree : Tree Literal}
    (hfollows : Follows 0 rest) (hderives : Derives .expression tokens tree) :
    ∃ whole, Derives .expression (tokens ++ rest) whole := by
  generalize hdepth : 0 = depth at hfollows
  induction hfollows generalizing tokens tree with
  | done => exact ⟨tree, by simpa using hderives⟩
  | sign sign hoperand hrest ih =>
      obtain ⟨longer, hlonger⟩ := hderives.append_sign hoperand sign (by cases sign <;> decide)
      simpa using ih hlonger hdepth
  | closing hrest ih => exact absurd hdepth (Nat.succ_ne_zero _).symm

/-- Inside parentheses an expression takes up what may follow it before the closing one. -/
theorem Follows.exists_closing {depth : Nat} {rest tokens : List Token} {tree : Tree Literal}
    (hfollows : Follows (depth + 1) rest) (hderives : Derives .expression tokens tree) :
    ∃ inner outer whole, rest = inner ++ paren false :: outer ∧
      Derives .expression (tokens ++ inner) whole ∧ Follows depth outer := by
  generalize hdepth : depth + 1 = inside at hfollows
  induction hfollows generalizing tokens tree with
  | done => exact absurd hdepth (Nat.succ_ne_zero _)
  | @sign sign inside operandTokens rest operand hoperand hrest ih =>
      obtain ⟨longer, hlonger⟩ := hderives.append_sign hoperand sign (by cases sign <;> decide)
      obtain ⟨inner, outer, whole, rfl, hwhole, houter⟩ := ih hlonger hdepth
      exact ⟨sign.token :: (operandTokens ++ inner), outer, whole, by simp, by simpa using hwhole,
        houter⟩
  | @closing inside rest hrest ih =>
      obtain rfl := Nat.succ.inj hdepth
      exact ⟨[], rest, tree, rfl, by simpa using hderives, hrest⟩

/-- A primary in front of what may follow it. -/
def StartsOperand (depth : Nat) (tokens : List Token) : Prop :=
  ∃ operandTokens operand rest, tokens = operandTokens ++ rest ∧
    Derives .primary operandTokens operand ∧ Follows depth rest

/-- Known tokens whose parentheses close follow the grammar if operands do not touch and none is
missing. -/
theorem follows_or_startsOperand {ended : Bool} {depth : Nat} {tokens : List Token}
    (hknown : ∀ token ∈ tokens, token.IsKnown) (hapart : OperandsApart ended tokens)
    (hmissing : missing ended tokens = 0) (hcloses : Closes depth tokens) :
    if ended then Follows depth tokens else StartsOperand depth tokens := by
  induction tokens generalizing ended depth with
  | nil =>
      cases ended with
      | false => exact absurd hmissing Nat.one_ne_zero
      | true =>
          obtain rfl : depth = 0 := hcloses
          exact .done
  | cons token rest ih =>
      obtain ⟨hstart, hrest⟩ := hapart
      obtain ⟨hhere, hlater⟩ := Nat.add_eq_zero_iff.mp hmissing
      -- The token says whether an operand has ended; what it means for the rest is known.
      have htail : ∀ {inside}, Closes inside rest →
          if endsOperand token then Follows inside rest else StartsOperand inside rest :=
        ih (fun other hmem => hknown other (List.mem_cons_of_mem _ hmem)) hrest hlater
      have hmeant := hknown token List.mem_cons_self
      cases token with
      | number value text =>
          obtain rfl : ended = false := by simpa [startsOperand] using hstart
          exact ⟨_, _, rest, rfl, .number ⟨value, text⟩, htail hcloses⟩
      | function name =>
          obtain rfl : ended = false := by simpa [startsOperand] using hstart
          obtain ⟨function, rfl⟩ := hmeant
          obtain ⟨operandTokens, operand, outer, rfl, hoperand, houter⟩ := htail hcloses
          exact ⟨_, _, outer, rfl, .apply function hoperand, houter⟩
      | operator symbol precedence =>
          obtain rfl : ended = true := by simpa [startsOperand] using hhere
          obtain ⟨sign, hsign⟩ := hmeant
          obtain ⟨operandTokens, operand, outer, rfl, hoperand, houter⟩ := htail hcloses
          rw [← hsign]
          exact .sign sign hoperand houter
      | paren isOpen =>
          cases isOpen with
          | true =>
              obtain rfl : ended = false := by simpa [startsOperand] using hstart
              obtain ⟨operandTokens, operand, outer, rfl, hoperand, houter⟩ := htail hcloses
              -- The operand behind the parenthesis grows up to its partner.
              obtain ⟨inner, beyond, whole, rfl, hwhole, hbeyond⟩ :=
                houter.exists_closing (hoperand.weaken (by decide))
              exact ⟨_, whole, beyond, by simp, .parens hwhole, hbeyond⟩
          | false =>
              obtain rfl : ended = true := by simpa [startsOperand] using hhere
              cases depth with
              | zero => exact hcloses.elim
              | succ depth => exact .closing (htail hcloses)

/-- Tokens with no numbers side by side follow the grammar if their parentheses close and there
is one number more than there are operators. -/
theorem exists_derives_of_count {tokens : List Token} (hsettled : Settled none tokens)
    (hapart : NumbersApart tokens) (hcloses : Closes 0 tokens)
    (hcount : tokens.countP Token.isNumber = tokens.countP Token.isOperator + 1) :
    ∃ tree, Derives .expression tokens tree := by
  have hoperands := operandsApart_of_settled hsettled hapart
  have hmissing : missing false tokens = 0 := by
    have hcounted := countP_add_missing hsettled.2
    rw [touching_eq_zero_iff.mpr hapart] at hcounted
    omega
  obtain ⟨operandTokens, operand, rest, rfl, hoperand, hrest⟩ :=
    follows_or_startsOperand hsettled.1 hoperands hmissing hcloses
  exact hrest.exists_derives (hoperand.weaken (by decide))

/-! ## Refused formulas -/

/-- A formula with a value has one number more than it has operators, and its parentheses
close. -/
theorem count_of_evaluate {α : Type} {arithmetic : Arithmetic α} {mode : AngleMode}
    {formula : String} {tokens : List Token} {value : α}
    (htokens : tokenize formula = .ok tokens)
    (hvalue : evaluate arithmetic mode formula = .ok value) :
    Closes 0 tokens ∧ tokens.countP Token.isNumber = tokens.countP Token.isOperator + 1 := by
  rw [evaluate_of_tokenize arithmetic mode htokens, bind_eq_ok_iff] at hvalue
  obtain ⟨ordered, hordered, hresult⟩ := hvalue
  obtain ⟨stack, hrun, hsingle⟩ := bind_eq_ok_iff.mp hresult
  obtain rfl := single_eq_ok_iff.mp hsingle
  -- One value is left of an empty stack, and no number or operator got lost before.
  have hlength := run_length arithmetic mode hrun
  rw [countP_postfixFrom (fun _ => rfl) hordered, countP_postfixFrom (fun _ => rfl) hordered]
    at hlength
  simp only [List.countP_nil, List.length_cons, List.length_nil] at hlength
  exact ⟨closes_of_postfixFrom hordered, by omega⟩

/-- A formula that follows the grammar is not refused. -/
theorem kind_ne_invalidExpression_of_derives {α : Type} {arithmetic : Arithmetic α}
    (hblames : arithmetic.BlamesOperations) {mode : AngleMode} {formula : String}
    {tokens : List Token} {tree : Tree Literal} {error : CalcError}
    (htokens : tokenize formula = .ok tokens) (hderives : Derives .expression tokens tree)
    (herror : evaluate arithmetic mode formula = .error (.calculation error)) :
    error.kind ≠ .invalidExpression := by
  rw [evaluate_of_derives arithmetic mode htokens hderives] at herror
  have hkind := Tree.kind_of_value_eq_error hblames (Literal.read_ne_error hblames) herror
  intro hinvalid
  rw [hinvalid] at hkind
  exact absurd hkind (by decide)

/-- Of the formulas without numbers side by side exactly those that follow the grammar are
accepted: these never count as invalid expressions, and the others have no value. -/
theorem acceptance_of_numbersApart {formula : String} {tokens : List Token}
    (htokens : tokenize formula = .ok tokens) (hapart : NumbersApart tokens) :
    ((∃ tree, Derives .expression tokens tree) →
      ∀ (mode : AngleMode) (error : CalcError),
      (evaluateIn Standard.arithmetic (.text mode.name) formula = .error (.calculation error) →
        error.kind ≠ .invalidExpression) ∧
      ∀ places, evaluateIn (Precise.arithmetic places) (.text mode.name) formula =
        .error (.calculation error) → error.kind ≠ .invalidExpression) ∧
    ((¬∃ tree, Derives .expression tokens tree) →
      ∀ {α : Type} (arithmetic : Arithmetic α) (mode : AngleMode) (value : α),
        evaluateIn arithmetic (.text mode.name) formula ≠ .ok value) := by
  simp only [evaluateIn_text_name]
  refine ⟨?_, ?_⟩
  · rintro ⟨tree, hderives⟩ mode error
    exact ⟨kind_ne_invalidExpression_of_derives Standard.blamesOperations htokens hderives,
      fun places => kind_ne_invalidExpression_of_derives (Precise.blamesOperations places)
        htokens hderives⟩
  · intro hstray α arithmetic mode value hvalue
    obtain ⟨hcloses, hcount⟩ := count_of_evaluate htokens hvalue
    exact hstray (exists_derives_of_count (settled_of_tokenize htokens) hapart hcloses hcount)

/-- A function without an argument is found out in every arithmetic, because the value that it
lacks is lacking in every one; a division by zero follows the grammar. -/
theorem acceptance_of_empty_argument :
    (∀ (mode : AngleMode) (error : CalcError),
      evaluateIn Standard.arithmetic (.text mode.name) "2/0" = .error (.calculation error) →
        error.kind ≠ .invalidExpression) ∧
    ∀ {α : Type} (arithmetic : Arithmetic α) (mode : AngleMode) (value : α),
      evaluateIn arithmetic (.text mode.name) "2*sin()" ≠ .ok value := by
  have hquotient : tokenize "2/0" =
      .ok [(Literal.ofNat 2).token, OperatorSign.slash.token, (Literal.ofNat 0).token] := by
    decide +kernel
  have hempty : tokenize "2*sin()" = .ok [(Literal.ofNat 2).token, OperatorSign.asterisk.token,
      function UnaryFunction.sin.name, paren true, paren false] := by decide +kernel
  have hrefused : evaluateIn Standard.arithmetic (.text AngleMode.degrees.name) "2*sin()" =
      .error (.calculation (.ofKind .invalidExpression)) := by decide +kernel
  have hderives := Derives.binary .slash (.loosen (.loosen (.number (.ofNat 2))))
    (.loosen (.number (.ofNat 0)))
  obtain ⟨haccepts, -⟩ := acceptance_of_numbersApart hquotient (by decide)
  obtain ⟨hgrammar, hstray⟩ := acceptance_of_numbersApart hempty (by decide)
  have hunderivable : ¬∃ tree, Derives .expression [(Literal.ofNat 2).token,
      OperatorSign.asterisk.token, function UnaryFunction.sin.name, paren true, paren false]
      tree :=
    fun hderivable => (hgrammar hderivable .degrees _).1 hrefused rfl
  exact ⟨fun mode error => (haccepts ⟨_, hderives.loosen⟩ mode error).1, hstray hunderivable⟩

end SciCalc.Formula
