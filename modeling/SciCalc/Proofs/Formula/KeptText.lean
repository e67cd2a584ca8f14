import SciCalc.Proofs.Formula.BoundedDepth
import SciCalc.Proofs.Formula.Messages

/-! # What tokens keep of a text

Tokens are written with the pieces that they come from. So the texts of the tokens are the text of
the formula, without its white space and with a multiplication wherever one is understood. A minus
has become the sign of a number where an operand is expected and a number follows, and has stayed an
operator everywhere else.
-/

namespace SciCalc

namespace Text

/-- The text without its white space. -/
def withoutBlanks (cs : List Char) : List Char := cs.filter fun c => !isBlank c

theorem withoutBlanks_append (first second : List Char) :
    withoutBlanks (first ++ second) = withoutBlanks first ++ withoutBlanks second :=
  List.filter_append ..

theorem IsUnbroken.withoutBlanks_eq {cs : List Char} (hcs : IsUnbroken cs) :
    withoutBlanks cs = cs := by
  apply List.filter_eq_self.mpr
  intro c hmem
  rw [hcs c hmem]
  rfl

end Text

/-- The pieces of a text hold all of it but its white space. -/
theorem Lexeme.flatMap_chars_scan (cs : List Char) :
    (scan cs).flatMap chars = Text.withoutBlanks cs := by
  have hoccur := (munches_scan cs).occurs
  induction cs using scan_induction with
  | nil => rfl
  | blank c rest hblank ih =>
      rw [scan_cons_of_blank hblank] at hoccur ⊢
      simpa [Text.withoutBlanks, hblank] using ih hoccur
  | piece c rest hblank ih =>
      rw [scan_cons hblank] at hoccur ⊢
      obtain ⟨hpiece, hrest⟩ := List.forall_mem_cons.mp hoccur
      calc
        ((split c rest).1 :: scan (split c rest).2).flatMap chars
            = (split c rest).1.chars ++ Text.withoutBlanks (split c rest).2 := by
              rw [List.flatMap_cons, ih hrest]
        _ = Text.withoutBlanks ((split c rest).1.chars ++ (split c rest).2) := by
              rw [Text.withoutBlanks_append, hpiece.isUnbroken_chars.withoutBlanks_eq]
        _ = Text.withoutBlanks (c :: rest) := by rw [split_append]

namespace Token

open Lexeme Formula

/-- Whether the token is a function. -/
def isFunction : Token → Bool
  | function _ => true
  | _ => false

/-- The characters that the token is written with. -/
def chars (token : Token) : List Char := token.toText.toList

/-- Whether the token is a number with a minus of its own. -/
def isSigned (token : Token) : Bool := token.isNumber && token.chars.head? == some '-'

/-- An operand ends and another one starts: a number or a closing parenthesis stands in front of an
opening one or of a function, or a closing parenthesis in front of a number. -/
inductive Meets : Token → Token → Prop where
  | numberOpening (value : Double) (text : Option String) : Meets (number value text) (paren true)
  | numberFunction (value : Double) (text : Option String) (name : String) :
      Meets (number value text) (function name)
  | closingOpening : Meets (paren false) (paren true)
  | closingFunction (name : String) : Meets (paren false) (function name)
  | closingNumber (value : Double) (text : Option String) : Meets (paren false) (number value text)

/-- The second list is the first one without some of its multiplications. Each of these stands
between operands that meet; the token in front of the lists is given. -/
inductive Sheds : Option Token → List Token → List Token → Prop where
  | done (previous : Option Token) : Sheds previous [] []
  | keep (previous : Option Token) (token : Token) {rest kept : List Token}
      (hrest : Sheds (some token) rest kept) : Sheds previous (token :: rest) (token :: kept)
  | shed {left right : Token} {rest kept : List Token} (hmeets : Meets left right)
      (hrest : Sheds (some impliedTimes) (right :: rest) kept) :
      Sheds (some left) (impliedTimes :: right :: rest) kept

/-- An operand is expected behind the tokens: there are none, or the last one is an opening
parenthesis, an operator or a function. -/
def AwaitsOperand (before : List Token) : Prop :=
  ∀ last ∈ before.getLast?, last = paren true ∨ last.isOperator = true ∨ last.isFunction = true

theorem Sheds.sublist {previous : Option Token} {tokens kept : List Token}
    (hsheds : Sheds previous tokens kept) : kept.Sublist tokens := by
  induction hsheds with
  | done previous => exact .slnil
  | keep previous token _ ih => exact ih.cons_cons token
  | shed _ _ ih => exact ih.cons _

theorem impliesTimes_iff_meets {left right : Token} :
    impliesTimes (some left) right = true ↔ Meets left right := by
  constructor
  · intro htimes
    cases left with
    | number value text =>
        cases right with
        | function name => exact .numberFunction value text name
        | paren isOpen =>
            obtain rfl : isOpen = true := htimes
            exact .numberOpening value text
        | number _ _ | operator _ _ => cases htimes
    | paren isOpen =>
        cases isOpen with
        | true => simp at htimes
        | false =>
            cases right with
            | function name => exact .closingFunction name
            | number value text => exact .closingNumber value text
            | paren opens =>
                obtain rfl : opens = true := htimes
                exact .closingOpening
            | operator _ _ => cases htimes
    | operator _ _ | function _ => simp at htimes
  · intro hmeets
    cases hmeets <;> rfl

theorem signMayFollow_getLast?_iff {before : List Token} :
    signMayFollow before.getLast? = true ↔ AwaitsOperand before := by
  unfold AwaitsOperand
  cases before.getLast? with
  | none => simp [signMayFollow]
  | some last => cases last <;> simp [signMayFollow, isOperator, isFunction]

/-! ## The tokens of pieces -/

/-- The token of a number that is spelled out, with or without a minus of its own. -/
def ofSpelled (spelled : Spelled) (negative : Bool) : Token :=
  number (spelled.nearest negative)
    (some (String.ofList ((if negative then ['-'] else []) ++ spelled.chars)))

/-- The tokens that the pieces of a text become: numbers within the range of doubles with the text
that they are spelled with, and whatever else has a meaning. -/
inductive Genuine : Token → Prop where
  | number (spelled : Spelled) (negative : Bool)
      (hfinite : (spelled.nearest false).isFinite = true) : Genuine (ofSpelled spelled negative)
  | operator (sign : OperatorSign) : Genuine sign.token
  | function (meant : UnaryFunction) : Genuine (function meant.name)
  | paren (isOpen : Bool) : Genuine (paren isOpen)

/-- The pieces that a token is written with. The minus of a number is a piece of its own. -/
def pieces : Token → List Lexeme
  | number value text =>
    match (number value text).chars with
    | '-' :: digits => [.operator '-', .numeral digits]
    | digits => [.numeral digits]
  | operator symbol _ => symbol.toList.map .operator
  | function name => [.word name.toList]
  | paren isOpen => [.paren isOpen]

theorem flatMap_chars_pieces (token : Token) : token.pieces.flatMap Lexeme.chars = token.chars := by
  cases token with
  | number value text =>
      simp only [pieces]
      split
      next digits hchars => simp [hchars, Lexeme.chars]
      · simp [Lexeme.chars]
  | operator symbol precedence =>
      simp [pieces, chars, toText, List.flatMap_map, Lexeme.chars]
  | function name => simp [pieces, chars, toText, Lexeme.chars]
  | paren isOpen => cases isOpen <;> rfl

@[simp] theorem pieces_sign (sign : OperatorSign) : sign.token.pieces = [.operator sign.char] := by
  cases sign <;> rfl

section OfSpelled

variable (spelled : Spelled) (negative : Bool)

@[simp] theorem isNumber_ofSpelled : (ofSpelled spelled negative).isNumber = true := rfl

theorem chars_ofSpelled :
    (ofSpelled spelled negative).chars = (if negative then ['-'] else []) ++ spelled.chars := by
  simp [chars, toText, ofSpelled]

theorem head?_chars_ne_minus : spelled.chars.head? ≠ some '-' := by
  obtain ⟨first, rest, hfirst, hchars⟩ := spelled.exists_chars_eq_cons
  rw [hchars, List.head?_cons]
  rintro ⟨⟩
  exact absurd hfirst (by decide)

@[simp] theorem isSigned_ofSpelled : (ofSpelled spelled negative).isSigned = negative := by
  rw [isSigned, isNumber_ofSpelled, chars_ofSpelled]
  cases negative with
  | true => rfl
  | false => simpa using head?_chars_ne_minus spelled

theorem pieces_ofSpelled :
    (ofSpelled spelled negative).pieces =
      (if negative then [.operator '-'] else []) ++ [.numeral spelled.chars] := by
  have hchars := chars_ofSpelled spelled negative
  unfold ofSpelled at hchars ⊢
  rw [pieces, hchars]
  cases negative with
  | true => rfl
  | false =>
      simp only [Bool.false_eq_true, if_false, List.nil_append]
      split
      next digits hminus => exact absurd (by rw [hminus]; rfl) (head?_chars_ne_minus spelled)
      · rfl

end OfSpelled

/-- A minus is the sign of a number only where an operand is expected, and there it is an operator
only if no number without a minus of its own follows. The token in front of the list is given. -/
def SignsSettled : Option Token → List Token → Prop
  | _, [] => True
  | previous, token :: rest =>
    (token.isSigned = true → signMayFollow previous = true) ∧
      (∀ precedence, token = operator "-" precedence → signMayFollow previous = true →
        ∀ next ∈ rest.head?, next.isNumber = true → next.isSigned = true) ∧
      SignsSettled (some token) rest

/-- The tokens come from the pieces: these are put together again from the tokens that are kept. -/
structure Restores (previous : Option Token) (lexemes : List Lexeme) (tokens : List Token) :
    Prop where
  kept : ∃ kept, Sheds previous tokens kept ∧ kept.flatMap pieces = lexemes
  genuine : ∀ token ∈ tokens, token.Genuine
  signs : SignsSettled previous tokens

theorem impliedTimes_ne_minus (precedence : Int) : impliedTimes ≠ operator "-" precedence := by
  intro heq
  exact absurd (Token.operator.inj heq).1 (by decide)

namespace Restores

theorem nil (previous : Option Token) : Restores previous [] [] :=
  ⟨⟨[], .done previous, rfl⟩, List.forall_mem_nil _, trivial⟩

/-- A token is put in front, with the multiplication that is understood there. -/
theorem place {previous : Option Token} {token : Token} {lexemes : List Lexeme}
    {tokens : List Token} (hgenuine : token.Genuine) (hoperator : token.isOperator = false)
    (hsigned : token.isSigned = true → signMayFollow previous = true)
    (hrest : Restores (some token) lexemes tokens) :
    Restores previous (token.pieces ++ lexemes) (placeAfter previous token tokens) := by
  obtain ⟨⟨kept, hsheds, rfl⟩, hgenuines, hsettled⟩ := hrest
  have hnoMinus : ∀ precedence, token ≠ operator "-" precedence := by
    rintro precedence rfl
    cases hoperator
  unfold placeAfter
  split
  next htimes =>
    cases previous with
    | none => simp at htimes
    | some left =>
        -- The multiplication that is understood here is the one that is taken out again.
        have hmeets : Meets left token := impliesTimes_iff_meets.mp htimes
        refine ⟨⟨token :: kept, .shed hmeets (.keep _ token hsheds), rfl⟩, ?_, ?_⟩
        · exact List.forall_mem_cons.mpr
            ⟨.operator .times, List.forall_mem_cons.mpr ⟨hgenuine, hgenuines⟩⟩
        · exact ⟨nofun, fun precedence hminus => absurd hminus (impliedTimes_ne_minus _),
            fun _ => rfl, fun precedence hminus => absurd hminus (hnoMinus _), hsettled⟩
  next =>
    exact ⟨⟨token :: kept, .keep previous token hsheds, rfl⟩,
      List.forall_mem_cons.mpr ⟨hgenuine, hgenuines⟩,
      hsigned, fun precedence hminus => absurd hminus (hnoMinus precedence), hsettled⟩

/-- An operator is put in front. If it is a minus where an operand is expected, then no number
without a minus of its own may follow. -/
theorem operator {previous : Option Token} (sign : OperatorSign) {lexemes : List Lexeme}
    {tokens : List Token}
    (hnext : sign = .minus → signMayFollow previous = true →
      ∀ next ∈ tokens.head?, next.isNumber = true → next.isSigned = true)
    (hrest : Restores (some sign.token) lexemes tokens) :
    Restores previous (.operator sign.char :: lexemes) (sign.token :: tokens) := by
  obtain ⟨⟨kept, hsheds, rfl⟩, hgenuine, hsettled⟩ := hrest
  refine ⟨⟨sign.token :: kept, .keep previous _ hsheds, ?_⟩,
    List.forall_mem_cons.mpr ⟨.operator sign, hgenuine⟩, nofun, ?_, hsettled⟩
  · rw [List.flatMap_cons, pieces_sign]
    rfl
  · intro precedence hminus
    apply hnext
    cases sign <;> first | rfl | exact absurd (Token.operator.inj hminus).1 (by decide)

/-- A number without a minus of its own comes from a numeral. -/
theorem exists_numeral {previous : Option Token} {lexemes : List Lexeme} {token : Token}
    {rest : List Token} (hrestores : Restores previous lexemes (token :: rest))
    (hnumber : token.isNumber = true) (hunsigned : token.isSigned = false) :
    ∃ text tail, lexemes = .numeral text :: tail := by
  obtain ⟨⟨kept, hsheds, rfl⟩, hgenuine, -⟩ := hrestores
  cases hsheds with
  | shed _ _ => cases hnumber
  | @keep _ _ _ kept hrest =>
      cases hgenuine token List.mem_cons_self with
      | number spelled negative _ =>
          rw [isSigned_ofSpelled] at hunsigned
          subst hunsigned
          rw [List.flatMap_cons, pieces_ofSpelled]
          exact ⟨spelled.chars, kept.flatMap pieces, rfl⟩
      | operator _ | function _ | paren _ => cases hnumber

end Restores

section Equations

variable {spelled : Spelled} (hfinite : (spelled.nearest false).isFinite = true)
  (previous : Option Token) (rest : List Lexeme)

include hfinite

theorem ofNumeral_of_isFinite (negative : Bool) :
    ofNumeral (String.ofList ((if negative then ['-'] else []) ++ spelled.chars)) =
      .ok (ofSpelled spelled negative) := by
  rw [ofNumeral_spelled, if_pos hfinite]
  rfl

theorem ofLexemes_numeral :
    ofLexemes previous (.numeral spelled.chars :: rest) =
      placeAfter previous (ofSpelled spelled false) <$>
        ofLexemes (some (ofSpelled spelled false)) rest := by
  have hnumeral : ofNumeral (String.ofList spelled.chars) = .ok (ofSpelled spelled false) :=
    ofNumeral_of_isFinite hfinite false
  rw [ofLexemes.eq_3, hnumeral, bind_ok]

theorem ofLexemes_signed (hmay : signMayFollow previous = true) :
    ofLexemes previous (.operator '-' :: .numeral spelled.chars :: rest) =
      placeAfter previous (ofSpelled spelled true) <$>
        ofLexemes (some (ofSpelled spelled true)) rest := by
  have hnumeral : ofNumeral (String.ofList ('-' :: spelled.chars)) = .ok (ofSpelled spelled true) :=
    ofNumeral_of_isFinite hfinite true
  rw [ofLexemes.eq_2, if_pos hmay, hnumeral, bind_ok]

end Equations

/-- Pieces that stand for something become tokens that restore them. -/
theorem restores_of_ofLexemes {previous : Option Token} {lexemes : List Lexeme}
    {tokens : List Token} (hstands : ∀ piece ∈ lexemes, piece.Stands)
    (htokens : ofLexemes previous lexemes = .ok tokens) : Restores previous lexemes tokens := by
  induction previous, lexemes using ofLexemes.induct generalizing tokens with
  | case1 previous =>
      obtain rfl := Except.ok.inj htokens
      exact .nil previous
  | case2 previous text rest hmay ih =>
      obtain ⟨-, hnumeral, hrest⟩ := by simpa only [List.forall_mem_cons] using hstands
      cases hnumeral with
      | numeral spelled hfinite =>
          rw [ofLexemes_signed hfinite previous rest hmay] at htokens
          obtain ⟨kept, hkept, rfl⟩ := map_eq_ok_iff.mp htokens
          have hplaced := (ih _ hrest hkept).place (.number spelled true hfinite) rfl fun _ => hmay
          rwa [pieces_ofSpelled] at hplaced
  | case3 previous text rest hmay ih =>
      rw [ofLexemes.eq_2, if_neg hmay] at htokens
      obtain ⟨kept, hkept, rfl⟩ := map_eq_ok_iff.mp htokens
      exact (ih (List.forall_mem_cons.mp hstands).2 hkept).operator .minus
        fun _ hsign => absurd hsign hmay
  | case4 previous text rest ih =>
      obtain ⟨hnumeral, hrest⟩ := List.forall_mem_cons.mp hstands
      cases hnumeral with
      | numeral spelled hfinite =>
          rw [ofLexemes_numeral hfinite] at htokens
          obtain ⟨kept, hkept, rfl⟩ := map_eq_ok_iff.mp htokens
          have hsigned : (ofSpelled spelled false).isSigned = true →
              signMayFollow previous = true := by
            simp
          have hplaced := (ih _ hrest hkept).place (.number spelled false hfinite) rfl hsigned
          rwa [pieces_ofSpelled] at hplaced
  | case5 previous symbol rest hnext ih =>
      obtain ⟨hsign, hrest⟩ := List.forall_mem_cons.mp hstands
      cases hsign with
      | operator sign =>
          rw [ofLexemes.eq_4 _ _ _ hnext] at htokens
          obtain ⟨kept, hkept, rfl⟩ := map_eq_ok_iff.mp htokens
          have hrestores : Restores (some sign.token) rest kept := ih hrest hkept
          refine hrestores.operator sign ?_
          -- A numeral behind the minus would have taken it.
          rintro rfl - next hhead hnumber
          obtain ⟨tail, rfl⟩ := List.head?_eq_some_iff.mp hhead
          by_contra hunsigned
          obtain ⟨text, behind, hnumeral⟩ :=
            hrestores.exists_numeral hnumber (by simpa using hunsigned)
          exact hnext text behind hnumeral rfl
  | case6 previous isOpen rest ih =>
      rw [ofLexemes.eq_5] at htokens
      obtain ⟨kept, hkept, rfl⟩ := map_eq_ok_iff.mp htokens
      exact (ih (List.forall_mem_cons.mp hstands).2 hkept).place (.paren isOpen) rfl
        fun hsigned => absurd hsigned Bool.false_ne_true
  | case7 previous letters rest ih =>
      obtain ⟨hword, hrest⟩ := List.forall_mem_cons.mp hstands
      cases hword with
      | word meant =>
          rw [ofLexemes_word] at htokens
          obtain ⟨kept, hkept, rfl⟩ := map_eq_ok_iff.mp htokens
          exact (ih _ hrest hkept).place (.function meant) rfl
            fun hsigned => absurd hsigned Bool.false_ne_true
  | case8 previous c rest => cases (List.forall_mem_cons.mp hstands).1

/-! ## The tokens of a formula -/

/-- The pieces of a text that has tokens all stand for something. -/
theorem stands_of_ofLexemes {previous : Option Token} {cs : List Char} {tokens : List Token}
    (htokens : ofLexemes previous (scan cs) = .ok tokens) : ∀ piece ∈ scan cs, piece.Stands := by
  refine (forall_stands_or_firstBlames (munches_scan cs).stands_or_blames).resolve_right ?_
  rintro ⟨kind, hfirst⟩
  obtain ⟨message, hmessage⟩ : ∃ message, ofLexemes previous (scan cs) = failWith kind message :=
    exists_message_of_firstBlames hfirst
  simp [hmessage] at htokens

theorem restores_of_tokenize {formula : String} {tokens : List Token}
    (htokens : tokenize formula = .ok tokens) : Restores none (scan formula.toList) tokens := by
  obtain ⟨-, -, hlexemes⟩ := tokenize_eq_ok_iff.mp htokens
  exact restores_of_ofLexemes (stands_of_ofLexemes hlexemes) hlexemes

/-- The tokens that are kept are written as the formula is, white space apart. -/
theorem exists_kept_of_tokenize {formula : String} {tokens : List Token}
    (htokens : tokenize formula = .ok tokens) :
    ∃ kept, Sheds none tokens kept ∧ kept.flatMap chars = Text.withoutBlanks formula.toList := by
  obtain ⟨kept, hsheds, hpieces⟩ := (restores_of_tokenize htokens).kept
  refine ⟨kept, hsheds, ?_⟩
  calc
    kept.flatMap chars = (kept.flatMap pieces).flatMap Lexeme.chars := by
      simp only [List.flatMap_assoc, flatMap_chars_pieces]
    _ = Text.withoutBlanks formula.toList := by rw [hpieces, flatMap_chars_scan]

/-! ## The parentheses of the tokens -/

theorem isParenthesis_of_isBlank {c : Char} (hblank : Text.isBlank c = true) :
    Parentheses.isParenthesis c = false := by
  by_contra hparenthesis
  simp only [Parentheses.isParenthesis, Bool.not_eq_false, Bool.or_eq_true, beq_iff_eq]
    at hparenthesis
  rcases hparenthesis with rfl | rfl <;> exact absurd hblank (by decide)

theorem skeleton_withoutBlanks (cs : List Char) :
    Parentheses.skeleton (Text.withoutBlanks cs) = Parentheses.skeleton cs := by
  rw [Parentheses.skeleton, Text.withoutBlanks, List.filter_filter]
  apply List.filter_congr
  intro c _
  cases hblank : Text.isBlank c with
  | true => simp [isParenthesis_of_isBlank hblank]
  | false => simp

/-- A multiplication has no parentheses, so none are lost with it. -/
theorem Sheds.skeleton_eq {previous : Option Token} {tokens kept : List Token}
    (hsheds : Sheds previous tokens kept) :
    Parentheses.skeleton (tokens.flatMap chars) = Parentheses.skeleton (kept.flatMap chars) := by
  induction hsheds with
  | done previous => rfl
  | keep previous token _ ih =>
      simp only [List.flatMap_cons, Parentheses.skeleton_append, ih]
  | shed _ _ ih =>
      rw [List.flatMap_cons, Parentheses.skeleton_append, ih]
      rfl

/-- The tokens have the parentheses of the formula, in their order. -/
theorem skeleton_of_tokenize {formula : String} {tokens : List Token}
    (htokens : tokenize formula = .ok tokens) :
    Parentheses.skeleton (tokens.flatMap chars) = Parentheses.skeleton formula.toList := by
  obtain ⟨kept, hsheds, hkept⟩ := exists_kept_of_tokenize htokens
  rw [hsheds.skeleton_eq, hkept, skeleton_withoutBlanks]

/-! ## What stands in front of a token -/

section Append

variable {previous : Option Token} {before after : List Token}

theorem Spaced.of_append (hspaced : Spaced previous (before ++ after)) :
    Spaced (before.getLast?.or previous) after := by
  induction before generalizing previous with
  | nil => exact hspaced
  | cons head rest ih =>
      have hrest := ih hspaced.2
      cases hlast : rest.getLast? <;> simpa [List.getLast?_cons, hlast] using hrest

theorem SignsSettled.of_append (hsettled : SignsSettled previous (before ++ after)) :
    SignsSettled (before.getLast?.or previous) after := by
  induction before generalizing previous with
  | nil => exact hsettled
  | cons head rest ih =>
      have hrest := ih hsettled.2.2
      cases hlast : rest.getLast? <;> simpa [List.getLast?_cons, hlast] using hrest

end Append

/-! ## Text and tokens -/

/-- The tokens of a formula, without some of the multiplications that stand between operands that
meet, are written as the formula is, white space apart. No two operands meet any more. A minus is
the sign of a number only where an operand is expected, and there a minus in front of a number is
always its sign. -/
theorem tokens_keep_text {formula : String} {tokens : List Token}
    (htokens : tokenize formula = .ok tokens) :
    (∃ kept, Sheds none tokens kept ∧
        kept.flatMap chars = Text.withoutBlanks formula.toList) ∧
      (∀ before left right after, tokens = before ++ left :: right :: after →
        ¬ Meets left right) ∧
      (∀ before token after, tokens = before ++ token :: after → token.isSigned = true →
        AwaitsOperand before) ∧
      ∀ before precedence token after,
        tokens = before ++ operator "-" precedence :: token :: after → AwaitsOperand before →
          token.isNumber = true → token.isSigned = true := by
  have hsettled := (restores_of_tokenize htokens).signs
  obtain ⟨-, hspaced⟩ := placed_of_tokenize htokens
  refine ⟨exists_kept_of_tokenize htokens, ?_, ?_, ?_⟩
  · rintro before left right after rfl hmeets
    obtain ⟨-, hright, -⟩ := hspaced.of_append
    rw [impliesTimes_iff_meets.mpr hmeets] at hright
    cases hright
  · rintro before token after rfl hsigned
    obtain ⟨hawaits, -⟩ := hsettled.of_append
    rw [Option.or_none] at hawaits
    exact signMayFollow_getLast?_iff.mp (hawaits hsigned)
  · rintro before precedence token after rfl hawaits hnumber
    obtain ⟨-, hminus, -⟩ := hsettled.of_append
    rw [Option.or_none] at hminus
    exact hminus precedence rfl (signMayFollow_getLast?_iff.mpr hawaits) token rfl hnumber

/-- One minus is a sign and two are operators, and two multiplications are understood. -/
theorem tokens_keep_text_with_signs :
    ∃ tokens, tokenize "-2 (3)4 - -sin 5" = .ok tokens ∧
      (∃ kept, Sheds none tokens kept ∧
        kept.flatMap chars = Text.withoutBlanks "-2 (3)4 - -sin 5".toList) ∧
      (∀ before left right after, tokens = before ++ left :: right :: after →
        ¬ Meets left right) ∧
      (∀ before token after, tokens = before ++ token :: after → token.isSigned = true →
        AwaitsOperand before) ∧
      ∀ before precedence token after,
        tokens = before ++ operator "-" precedence :: token :: after → AwaitsOperand before →
          token.isNumber = true → token.isSigned = true := by
  have htokens : tokenize "-2 (3)4 - -sin 5" = .ok [number (.neg (.ofNat 2)) "-2", impliedTimes,
      paren true, (Literal.ofNat 3).token, paren false, impliedTimes, (Literal.ofNat 4).token,
      OperatorSign.minus.token, OperatorSign.minus.token, function "sin",
      (Literal.ofNat 5).token] := by decide +kernel
  exact ⟨_, htokens, tokens_keep_text htokens⟩

end Token

end SciCalc
