import SciCalc.Proofs.Formula.KeptText
import SciCalc.Proofs.Formula.Meaning
import SciCalc.Proofs.Formula.PostfixOrder
import SciCalc.Proofs.Formula.Rejection

/-! # The stages of an evaluation and their errors

The mode is looked at first, then the parentheses, then the pieces of the text, and what is wrong
there is reported there. The later stages check some of it again: the postfix order looks for
partners of parentheses, and the stack machine for parentheses and for names without a meaning. For
tokens of a formula these checks find nothing. Every parenthesis has become one token, in order, and
every symbol and every name is one that there is.
-/

namespace SciCalc

/-- The call reports an error of the given kind. -/
def Reports {α : Type} (kind : ErrorKind) (call : Except Fault α) : Prop :=
  ∃ message, call = failWith kind message

theorem Rejects.kind_mem {α : Type} {kinds : List ErrorKind} {call : Except Fault α}
    {kind : ErrorKind} {message : String} (hrejects : Rejects kinds call)
    (hcall : call = failWith kind message) : kind ∈ kinds := by
  obtain ⟨error, herror, hkind⟩ := hrejects
  rw [hcall] at herror
  cases herror
  exact hkind

namespace Token

open Lexeme Formula

/-! ## The parentheses of tokens -/

/-- Only a parenthesis is written with a parenthesis. -/
theorem Genuine.skeleton_chars {token : Token} (hgenuine : token.Genuine)
    (hparen : token.isParen = false) : Parentheses.skeleton token.chars = [] := by
  cases hgenuine with
  | number spelled negative _ =>
      have hnumeric := spelled.mem_numericChars_of_signed negative
      rw [chars_ofSpelled]
      exact Parentheses.skeleton_of_isFlat ⟨fun hmem => absurd (hnumeric _ hmem) (by decide),
        fun hmem => absurd (hnumeric _ hmem) (by decide)⟩
  | operator sign => cases sign <;> decide
  | function meant => exact Parentheses.skeleton_of_isFlat (Parentheses.isFlat_name meant)
  | paren isOpen => cases hparen

/-- Tokens close what their parentheses bring the counter down from. -/
theorem closes_of_depthFrom {depth : Nat} {tokens : List Token}
    (hgenuine : ∀ token ∈ tokens, token.Genuine)
    (hdepth : Parentheses.depthFrom depth (Parentheses.skeleton (tokens.flatMap chars)) = .ok 0) :
    Closes depth tokens := by
  induction tokens generalizing depth with
  | nil => exact Except.ok.inj hdepth
  | cons token rest ih =>
      obtain ⟨htoken, hrest⟩ := List.forall_mem_cons.mp hgenuine
      rw [List.flatMap_cons, Parentheses.skeleton_append] at hdepth
      rcases token with ⟨value, text⟩ | ⟨symbol, precedence⟩ | name | (_ | _)
      case paren.false =>
        cases depth with
        | zero => cases hdepth
        | succ outer => exact ih hrest hdepth
      case paren.true =>
        have hopening : Parentheses.depthFrom depth
            ('(' :: Parentheses.skeleton (rest.flatMap chars)) = .ok 0 := hdepth
        simp only [Parentheses.depthFrom, if_true] at hopening
        split at hopening
        · exact ih hrest hopening
        · cases hopening
      -- Every other token is written without a parenthesis and leaves the counter where it is.
      all_goals
        rw [htoken.skeleton_chars rfl, List.nil_append] at hdepth
        exact ih hrest hdepth

/-- The tokens of a formula have a postfix order. -/
theorem exists_toPostfix_of_tokenize {formula : String} {tokens : List Token}
    (htokens : tokenize formula = .ok tokens) : ∃ ordered, toPostfix tokens = .ok ordered := by
  obtain ⟨-, hvalid, -⟩ := tokenize_eq_ok_iff.mp htokens
  rw [Parentheses.validate_eq_ok_iff_depth, Parentheses.depth, ← Parentheses.depthFrom_skeleton,
    ← skeleton_of_tokenize htokens] at hvalid
  have hcloses : Closes ([].countP isOpening) tokens :=
    closes_of_depthFrom (restores_of_tokenize htokens).genuine hvalid
  exact exists_postfixFrom_of_closes hcloses

end Token

/-! ## The errors of the tokenizer -/

theorem Lexeme.FirstBlames.kind_mem {pieces : List Lexeme} {kind : ErrorKind}
    (hfirst : FirstBlames pieces kind) :
    kind ∈ [ErrorKind.invalidExpression, .unknownFunction, .invalidCharacter] := by
  induction hfirst with
  | here hblames => cases hblames <;> decide
  | later _ _ ih => exact ih

namespace Token

theorem refused_of_reports {formula : String} {kind : ErrorKind}
    (hreports : Reports kind (tokenize formula)) : Refused formula.toList kind := by
  obtain ⟨message, hmessage⟩ := hreports
  rcases tokenizable_or_refused formula.toList with haccepted | ⟨other, hrefused⟩
  · obtain ⟨tokens, htokens⟩ := haccepted.exists_tokens
    rw [htokens] at hmessage
    cases hmessage
  · obtain ⟨reported, hreported⟩ := hrefused.exists_message
    obtain ⟨rfl, -⟩ := failWith_inj.mp (hreported.symm.trans hmessage)
    exact hrefused

/-- The tokenizer reports the parentheses exactly if the text is not blank and fails their check. -/
theorem reports_mismatched_iff {formula : String} :
    Reports .mismatchedParentheses (tokenize formula) ↔
      Text.isAllBlank formula = false ∧ Parentheses.validate formula ≠ .ok () := by
  have hnotBlank : Text.isAllBlank formula = false ↔
      ∃ c ∈ formula.toList, Text.isBlank c = false := by simp [Text.isAllBlank]
  rw [hnotBlank, ne_eq, Parentheses.validate_eq_ok_iff]
  constructor
  · intro hreports
    cases refused_of_reports hreports with
    | parentheses hnotBlank hviolates => exact ⟨hnotBlank, hviolates⟩
    | piece _ _ _ _ hfirst => exact absurd hfirst.kind_mem (by decide)
  · rintro ⟨hnotBlank, hviolates⟩
    obtain ⟨message, hmessage⟩ := Parentheses.exists_message_of_violation hviolates
    exact ⟨message, by rw [tokenize_of_not_blank hnotBlank, hmessage]; rfl⟩

/-- The tokenizer does not know of the mode. -/
theorem not_reports_angleMode (formula : String) :
    ¬ Reports .invalidAngleMode (tokenize formula) := by
  intro hreports
  cases refused_of_reports hreports with
  | piece _ _ _ _ hfirst => exact absurd hfirst.kind_mem (by decide)

end Token

namespace Formula

open Token

variable {α : Type} {arithmetic : Arithmetic α}

/-! ## The errors of an evaluation -/

theorem ofDatum_cases (mode : Datum) :
    (∃ angleMode : AngleMode, mode = .text angleMode.name) ∨
      (mode ≠ .text "deg" ∧ mode ≠ .text "rad") ∧
        AngleMode.ofDatum mode = fail .invalidAngleMode := by
  by_cases hdegrees : mode = .text "deg"
  · exact .inl ⟨.degrees, hdegrees⟩
  by_cases hradians : mode = .text "rad"
  · exact .inl ⟨.radians, hradians⟩
  refine .inr ⟨⟨hdegrees, hradians⟩, ?_⟩
  cases mode with
  | text name =>
      have hnone : AngleMode.ofName? name = none := by
        simp_all [AngleMode.ofName?]
      rw [AngleMode.ofDatum, hnone]
  | _ => rfl

theorem ofDatum_eq_ok_iff {given : Datum} {mode : AngleMode} :
    AngleMode.ofDatum given = .ok mode ↔ given = .text mode.name := by
  constructor
  · intro hmode
    obtain ⟨named, rfl⟩ | ⟨-, hfails⟩ := ofDatum_cases given
    · rw [ofDatum_text_name] at hmode
      rw [Except.ok.inj hmode]
    · rw [hfails] at hmode
      cases hmode
  · rintro rfl
    exact ofDatum_text_name mode

/-- Whatever has been tokenized can be evaluated in postfix order. -/
theorem exists_prepare_of_tokenize (mode : AngleMode) {formula : String} {tokens : List Token}
    (htokens : tokenize formula = .ok tokens) :
    ∃ ordered, toPostfix tokens = .ok ordered ∧
      prepare (.text mode.name) formula = .ok (mode, ordered) := by
  obtain ⟨ordered, hordered⟩ := exists_toPostfix_of_tokenize htokens
  refine ⟨ordered, hordered, ?_⟩
  simp only [prepare, ofDatum_text_name, htokens, hordered, bind_ok]
  rfl

/-- A kind that neither an operation nor the evaluation of a postfix order reports is reported by
the tokenizer or not at all. -/
theorem evaluate_eq_failWith_iff (hreads : arithmetic.ReadsNumerals)
    (hblames : arithmetic.BlamesOperations) (mode : AngleMode) {formula : String}
    {kind : ErrorKind} (hkind : kind ∉ .invalidExpression :: operationKinds) {message : String} :
    evaluateIn arithmetic (.text mode.name) formula = failWith kind message ↔
      tokenize formula = failWith kind message := by
  constructor
  · intro hevaluate
    have hstages := hevaluate
    rw [evaluateIn_text_name] at hstages
    rcases bind_eq_error_iff.mp hstages with htokenize | ⟨tokens, htokens, -⟩
    · exact htokenize
    obtain ⟨ordered, -, hprepare⟩ := exists_prepare_of_tokenize mode htokens
    obtain ⟨hillFormed, hwellFormed⟩ := rejects_of_prepare hreads hblames hprepare
    refine absurd ?_ hkind
    by_cases hformed : WellFormed ordered
    · rcases hwellFormed hformed with ⟨value, hvalue⟩ | hrejects
      · rw [hvalue] at hevaluate
        cases hevaluate
      · exact List.mem_cons_of_mem _ (hrejects.kind_mem hevaluate)
    · exact (hillFormed hformed).kind_mem hevaluate
  · intro htokenize
    rw [evaluateIn_text_name, evaluate, htokenize]
    rfl

/-- What has been tokenized is called an invalid expression by the default message alone. -/
theorem message_of_tokenize (hreads : arithmetic.ReadsNumerals)
    (hblames : arithmetic.BlamesOperations) {mode : AngleMode} {formula : String}
    {tokens : List Token} (htokens : tokenize formula = .ok tokens) {message : String}
    (hinvalid : evaluate arithmetic mode formula = failWith .invalidExpression message) :
    message = ErrorKind.invalidExpression.defaultMessage := by
  obtain ⟨ordered, hordered, hprepare⟩ := exists_prepare_of_tokenize mode htokens
  obtain ⟨harise, hparen⟩ := arises_of_prepare hprepare
  rw [evaluate, htokens, bind_ok, hordered, bind_ok] at hinvalid
  rcases evaluatePostfix_cases hreads mode harise hparen with
    ⟨value, hvalue, -⟩ | ⟨error, herror, hraises⟩ | ⟨hlacking, -⟩
  · rw [hvalue] at hinvalid
    cases hinvalid
  · rw [herror] at hinvalid
    obtain rfl := Fault.calculation.inj (Except.error.inj hinvalid)
    have hkind : ErrorKind.invalidExpression ∈ operationKinds := hraises.kind_mem hblames
    exact absurd hkind (by decide)
  · rw [hlacking] at hinvalid
    exact (failWith_inj.mp hinvalid).2.symm

/-! ## Branches that no formula leads to -/

/-- An evaluation in postfix order comes to a token, with the given values on the stack. -/
def Reaches (arithmetic : Arithmetic α) (mode : AngleMode) (ordered : List Token) (stack : List α)
    (token : Token) : Prop :=
  ∃ before after, ordered = before ++ token :: after ∧ run arithmetic mode [] before = .ok stack

/-- The token is a parenthesis, or it finds its operands and nothing is known of its symbol or its
name. -/
inductive GoesAstray : List α → Token → Prop where
  | paren (stack : List α) (isOpen : Bool) : GoesAstray stack (.paren isOpen)
  | operator (right left : α) (below : List α) {symbol : String} (precedence : Int)
      (hnone : BinaryOperation.ofSymbol? symbol = none) :
      GoesAstray (right :: left :: below) (.operator symbol precedence)
  | function (argument : α) (below : List α) {name : String}
      (hnone : UnaryFunction.ofName? name = none) :
      GoesAstray (argument :: below) (.function name)

theorem not_goesAstray_of_arises {token : Token} (harises : token.Arises)
    (hparen : token.isParen = false) (stack : List α) : ¬ GoesAstray stack token := by
  intro hastray
  cases harises with
  | number _ => cases hastray
  | operator sign =>
      cases hastray with
      | operator _ _ _ _ hnone =>
          rw [OperatorSign.ofSymbol?_char] at hnone
          cases hnone
  | function meant =>
      cases hastray with
      | function _ _ hnone =>
          rw [ofName?_name] at hnone
          cases hnone
  | paren isOpen => cases hparen

/-- In the postfix order of a formula there are no parentheses, and every other token has a
meaning. -/
theorem not_goesAstray_of_tokenize {formula : String} {tokens ordered : List Token}
    (htokens : tokenize formula = .ok tokens) (hordered : toPostfix tokens = .ok ordered)
    {mode : AngleMode} {stack : List α} {token : Token}
    (hreaches : Reaches arithmetic mode ordered stack token) : ¬ GoesAstray stack token := by
  obtain ⟨before, after, hsplit, -⟩ := hreaches
  have hmem : token ∈ ordered := by simp [hsplit]
  apply not_goesAstray_of_arises
  · exact forall_mem_toPostfix .paren (placed_of_tokenize htokens).1 hordered token hmem
  · exact isParen_of_mem_postfixFrom (List.forall_mem_nil _) hordered token hmem

/-! ## Each stage owns its errors -/

/-- Every error of an evaluation comes from the stage that owns it. The mode is blamed for a mode
that there is not. In a mode that there is, the parentheses are blamed for a text that is not blank
and fails their check, and names and characters are blamed as the tokenizer does, in its words. The
checks of the later stages for the same are never needed: there is a postfix order, and no token in
it that an evaluation comes to goes astray. -/
structure OwnsErrors (arithmetic : Arithmetic α) : Prop where
  angleMode : ∀ (mode : Datum) (formula : String),
    Reports .invalidAngleMode (evaluateIn arithmetic mode formula) ↔
      mode ≠ .text "deg" ∧ mode ≠ .text "rad"
  parentheses : ∀ (mode : AngleMode) (formula : String),
    Reports .mismatchedParentheses (evaluateIn arithmetic (.text mode.name) formula) ↔
      Text.isAllBlank formula = false ∧ Parentheses.validate formula ≠ .ok ()
  pieces : ∀ (mode : AngleMode) (formula : String),
    ∀ kind ∈ [ErrorKind.unknownFunction, .invalidCharacter], ∀ message,
      evaluateIn arithmetic (.text mode.name) formula = failWith kind message ↔
        tokenize formula = failWith kind message
  laterStages : ∀ (mode : AngleMode) (formula : String) (tokens : List Token),
    tokenize formula = .ok tokens → ∃ ordered, toPostfix tokens = .ok ordered ∧
      ∀ stack token, Reaches arithmetic mode ordered stack token → ¬ GoesAstray stack token

theorem ownsErrors (hreads : arithmetic.ReadsNumerals) (hblames : arithmetic.BlamesOperations) :
    OwnsErrors arithmetic where
  angleMode mode formula := by
    rcases ofDatum_cases mode with ⟨angleMode, rfl⟩ | ⟨hunknown, hfail⟩
    · have hnone : ¬ Reports .invalidAngleMode
          (evaluateIn arithmetic (.text angleMode.name) formula) := by
        rintro ⟨message, hmessage⟩
        rw [evaluate_eq_failWith_iff hreads hblames angleMode (by decide)] at hmessage
        exact not_reports_angleMode formula ⟨message, hmessage⟩
      refine iff_of_false hnone ?_
      cases angleMode <;> simp [AngleMode.name]
    · have hreports : evaluateIn arithmetic mode formula = fail .invalidAngleMode := by
        rw [evaluateIn, hfail]
        rfl
      exact iff_of_true ⟨_, hreports⟩ hunknown
  parentheses mode formula := by
    rw [← reports_mismatched_iff]
    exact exists_congr fun message => evaluate_eq_failWith_iff hreads hblames mode (by decide)
  pieces mode formula kind hkind message := by
    apply evaluate_eq_failWith_iff hreads hblames mode
    revert kind
    decide
  laterStages mode formula tokens htokens := by
    obtain ⟨ordered, hordered⟩ := exists_toPostfix_of_tokenize htokens
    exact ⟨ordered, hordered, fun _ _ => not_goesAstray_of_tokenize htokens hordered⟩

/-- In both arithmetics every error of an evaluation comes from the stage that owns it. -/
theorem errors_owned_by_stages :
    OwnsErrors Standard.arithmetic ∧ ∀ places, OwnsErrors (Precise.arithmetic places) :=
  ⟨ownsErrors Standard.readsNumerals Standard.blamesOperations,
    fun places => ownsErrors (Precise.readsNumerals places) (Precise.blamesOperations places)⟩

end Formula

end SciCalc
