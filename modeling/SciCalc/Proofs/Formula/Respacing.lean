import SciCalc.Proofs.Formula.KeptText

/-! # Tokens written out with other spaces

The tokens of a formula, written one after the other with white space in between, are read as the
same tokens again, whatever the white space is. It ends every piece and is passed over; a minus that
was a sign is the sign of the same number again, and a multiplication that was understood is written
out, so that none is understood beside it.
-/

namespace SciCalc

namespace Lexeme

/-! ## White space between pieces -/

theorem isBreak_of_isBlank {c : Char} (hblank : Text.isBlank c = true) : IsBreak c := by
  refine ⟨?_, ?_, ?_, ?_, ?_⟩
  · by_contra hdigit
    have hnumeric := mem_numericChars_of_isDigit (by simpa using hdigit)
    rw [isBlank_of_numeric hnumeric] at hblank
    cases hblank
  · by_contra halpha
    rw [isBlank_of_isAlpha (by simpa using halpha)] at hblank
    cases hblank
  all_goals
    rintro rfl
    exact absurd hblank (by decide)

/-- White space in front of a text is passed over. -/
theorem scan_append_of_isBlank {gap : List Char} (hblank : ∀ c ∈ gap, Text.isBlank c = true)
    (rest : List Char) : scan (gap ++ rest) = scan rest := by
  induction gap with
  | nil => rfl
  | cons c tail ih =>
      obtain ⟨hc, htail⟩ := List.forall_mem_cons.mp hblank
      rw [List.cons_append, scan_cons_of_blank hc, ih htail]

/-- White space between two texts keeps their pieces apart. -/
theorem scan_append_gap {gap : List Char} (hblank : ∀ c ∈ gap, Text.isBlank c = true)
    (hgap : gap ≠ []) (first rest : List Char) :
    scan (first ++ (gap ++ rest)) = scan first ++ scan rest := by
  cases gap with
  | nil => exact absurd rfl hgap
  | cons c tail =>
      obtain ⟨hc, htail⟩ := List.forall_mem_cons.mp hblank
      rw [List.cons_append, scan_append_break (isBreak_of_isBlank hc), scan_cons_of_blank hc,
        scan_append_of_isBlank htail]

/-- White space behind a text is passed over. -/
theorem scan_append_trailing {gap : List Char} (hblank : ∀ c ∈ gap, Text.isBlank c = true)
    (first : List Char) : scan (first ++ gap) = scan first := by
  by_cases hgap : gap = []
  · rw [hgap, List.append_nil]
  · simpa using scan_append_gap hblank hgap first []

theorem scan_eq_nil_iff {cs : List Char} : scan cs = [] ↔ ∀ c ∈ cs, Text.isBlank c = true := by
  constructor
  · intro hscan
    have hwithout : Text.withoutBlanks cs = [] := by rw [← flatMap_chars_scan, hscan]; rfl
    simpa [Text.withoutBlanks] using hwithout
  · intro hblank
    simpa using scan_append_of_isBlank hblank []

/-- A piece that stands alone is scanned as itself. -/
theorem Regular.scan_chars {piece : Lexeme} (hregular : piece.Regular) :
    scan piece.chars = [piece] := by
  obtain ⟨c, tail, hchars⟩ := List.exists_cons_of_ne_nil hregular.chars_ne_nil
  have hpiece : (split c tail).1 = piece := split_chars hregular hchars
  have hrest : (split c tail).2 = [] := by
    have hall := split_append c tail
    rw [hpiece, ← hchars] at hall
    simpa using hall
  rw [hchars, scan_cons (hregular.isBlank_head hchars), hpiece, hrest, scan_nil]

end Lexeme

namespace Token

open Lexeme Formula

/-! ## Pieces become the tokens that they come from -/

/-- A token alone is scanned as its pieces. -/
theorem Genuine.scan_chars {token : Token} (hgenuine : token.Genuine) :
    scan token.chars = token.pieces := by
  cases hgenuine with
  | number spelled negative _ =>
      have hspelled : scan spelled.chars = [.numeral spelled.chars] :=
        (Regular.numeral spelled).scan_chars
      rw [chars_ofSpelled, pieces_ofSpelled]
      cases negative with
      | true => exact (scan_sign .minus spelled.chars).trans (congrArg _ hspelled)
      | false => exact hspelled
  | operator sign =>
      rw [pieces_sign, ← (Regular.operator sign).scan_chars]
      cases sign <;> rfl
  | function meant =>
      cases meant <;> decide +kernel
  | paren isOpen => cases isOpen <;> rfl

/-- Only a number without a minus of its own begins with a numeral. -/
theorem Genuine.isNumber_of_pieces {token : Token} (hgenuine : token.Genuine)
    {more tail : List Lexeme} {text : List Char}
    (hpieces : token.pieces ++ more = .numeral text :: tail) :
    token.isNumber = true ∧ token.isSigned = false := by
  cases hgenuine with
  | number spelled negative _ =>
      rw [isSigned_ofSpelled]
      rw [pieces_ofSpelled] at hpieces
      cases negative with
      | true => cases (List.cons.inj hpieces).1
      | false => exact ⟨rfl, rfl⟩
  | operator sign =>
      rw [pieces_sign] at hpieces
      cases (List.cons.inj hpieces).1
  | function meant => cases (List.cons.inj hpieces).1
  | paren isOpen => cases (List.cons.inj hpieces).1

/-- An operator sign is an operator unless it is a minus where an operand is expected and a number
follows. -/
theorem ofLexemes_operator_of_apart {previous : Option Token} {symbol : Char}
    {lexemes : List Lexeme}
    (hapart : symbol = '-' → signMayFollow previous = true →
      ∀ text rest, lexemes ≠ .numeral text :: rest) :
    ofLexemes previous (.operator symbol :: lexemes) =
      (ofSign symbol :: ·) <$> ofLexemes (some (ofSign symbol)) lexemes := by
  by_cases hmay : signMayFollow previous = true
  · rw [ofLexemes.eq_4]
    exact fun text rest hlexemes hsymbol => hapart hsymbol hmay text rest hlexemes
  · exact ofLexemes_operator (by simpa using hmay) symbol lexemes

/-- The pieces of a token become that token, if a sign stands where one may stand and no numeral
follows a minus that would be its sign. -/
theorem Genuine.ofLexemes_append {token : Token} (hgenuine : token.Genuine)
    {previous : Option Token} {lexemes : List Lexeme}
    (hsigned : token.isSigned = true → signMayFollow previous = true)
    (hapart : ∀ precedence, token = Token.operator "-" precedence →
      signMayFollow previous = true → ∀ text rest, lexemes ≠ .numeral text :: rest) :
    ofLexemes previous (token.pieces ++ lexemes) =
      placeAfter previous token <$> ofLexemes (some token) lexemes := by
  cases hgenuine with
  | number spelled negative hfinite =>
      rw [pieces_ofSpelled]
      cases negative with
      | true => exact ofLexemes_signed hfinite previous lexemes (hsigned (isSigned_ofSpelled ..))
      | false => exact ofLexemes_numeral hfinite previous lexemes
  | operator sign =>
      have hplace : placeAfter previous sign.token = (sign.token :: ·) := by
        funext rest
        exact placeAfter_of_not_impliesTimes (impliesTimes_operator ..) rest
      rw [pieces_sign, hplace]
      apply ofLexemes_operator_of_apart
      intro hchar
      apply hapart 1
      rw [OperatorSign.token, hchar]
      rfl
  | function meant => exact ofLexemes_word previous meant lexemes
  | paren isOpen => exact ofLexemes.eq_5 previous isOpen lexemes

/-- The pieces of settled tokens become these tokens. -/
theorem ofLexemes_flatMap_pieces {previous : Option Token} {tokens : List Token}
    (hgenuine : ∀ token ∈ tokens, token.Genuine) (hspaced : Spaced previous tokens)
    (hsettled : SignsSettled previous tokens) :
    ofLexemes previous (tokens.flatMap pieces) = .ok tokens := by
  induction tokens generalizing previous with
  | nil => rfl
  | cons token rest ih =>
      obtain ⟨htoken, hrest⟩ := List.forall_mem_cons.mp hgenuine
      obtain ⟨htimes, hspaced⟩ := hspaced
      obtain ⟨hsigned, hminus, hsettled⟩ := hsettled
      have hapart : ∀ precedence, token = operator "-" precedence →
          signMayFollow previous = true →
          ∀ text tail, rest.flatMap pieces ≠ .numeral text :: tail := by
        intro precedence htoken hmay text tail hpieces
        cases rest with
        | nil => cases hpieces
        | cons next beyond =>
            obtain ⟨hnumber, hunsigned⟩ :=
              (hrest next List.mem_cons_self).isNumber_of_pieces hpieces
            rw [hminus precedence htoken hmay next rfl hnumber] at hunsigned
            cases hunsigned
      rw [List.flatMap_cons, htoken.ofLexemes_append hsigned hapart, ih hrest hspaced hsettled,
        Except.map_ok, placeAfter_of_not_impliesTimes htimes]

/-! ## Writing tokens out -/

/-- The tokens one after the other, each with the text that is given for the gap behind it. -/
def layOut (written : List (Token × String)) : String :=
  String.join (written.map fun (token, gap) => token.toText ++ gap)

theorem toList_layOut_cons (token : Token) (gap : String) (rest : List (Token × String)) :
    (layOut ((token, gap) :: rest)).toList =
      token.chars ++ (gap.toList ++ (layOut rest).toList) := by
  simp [layOut, String.toList_join, chars]

theorem skeleton_of_isAllBlank {gap : String} (hblank : Text.isAllBlank gap = true) :
    Parentheses.skeleton gap.toList = [] := by
  have hall : ∀ c ∈ gap.toList, Text.isBlank c = true := List.all_eq_true.mp hblank
  exact Parentheses.skeleton_of_isFlat
    ⟨fun hmem => absurd (hall _ hmem) (by decide), fun hmem => absurd (hall _ hmem) (by decide)⟩

section Gaps

variable {written : List (Token × String)}
  (hblank : ∀ pair ∈ written, Text.isAllBlank pair.2 = true)

include hblank

/-- Tokens that are written out with white space in between are scanned as their pieces. -/
theorem scan_layOut (hgenuine : ∀ pair ∈ written, pair.1.Genuine)
    (hgaps : ∀ pair ∈ written.dropLast, pair.2 ≠ "") :
    scan (layOut written).toList = (written.map Prod.fst).flatMap pieces := by
  induction written with
  | nil => rfl
  | cons pair rest ih =>
      obtain ⟨token, gap⟩ := pair
      obtain ⟨hgap, hrestBlank⟩ := List.forall_mem_cons.mp hblank
      obtain ⟨htoken, hrest⟩ := List.forall_mem_cons.mp hgenuine
      have hgapBlank : ∀ c ∈ gap.toList, Text.isBlank c = true := by
        simpa [Text.isAllBlank] using hgap
      rw [toList_layOut_cons, List.map_cons, List.flatMap_cons, ← htoken.scan_chars]
      cases rest with
      | nil =>
          rw [show (layOut []).toList = [] from rfl, List.append_nil,
            scan_append_trailing hgapBlank]
          exact (List.append_nil _).symm
      | cons next beyond =>
          rw [List.dropLast_cons_cons, List.forall_mem_cons] at hgaps
          have hgapNonempty : gap.toList ≠ [] := by simpa using hgaps.1
          rw [scan_append_gap hgapBlank hgapNonempty, ih hrestBlank hrest hgaps.2]

/-- The parentheses of tokens that are written out are those of the tokens. -/
theorem skeleton_layOut :
    Parentheses.skeleton (layOut written).toList =
      Parentheses.skeleton ((written.map Prod.fst).flatMap chars) := by
  induction written with
  | nil => rfl
  | cons pair rest ih =>
      obtain ⟨token, gap⟩ := pair
      obtain ⟨hgap, hrest⟩ := List.forall_mem_cons.mp hblank
      rw [toList_layOut_cons, List.map_cons, List.flatMap_cons]
      simp only [Parentheses.skeleton_append, ih hrest, skeleton_of_isAllBlank hgap,
        List.nil_append]

end Gaps

/-- The tokens of a formula, written out with any white space in between, in front and behind, are
the tokens of the text that this makes. -/
theorem tokenize_layOut {formula lead : String} {written : List (Token × String)}
    (htokens : tokenize formula = .ok (written.map Prod.fst))
    (hlead : Text.isAllBlank lead = true)
    (hblank : ∀ pair ∈ written, Text.isAllBlank pair.2 = true)
    (hgaps : ∀ pair ∈ written.dropLast, pair.2 ≠ "") :
    tokenize (lead ++ layOut written) = .ok (written.map Prod.fst) := by
  obtain ⟨hnotBlank, hvalid, -⟩ := tokenize_eq_ok_iff.mp htokens
  obtain ⟨⟨kept, hsheds, hkept⟩, hgenuine, hsettled⟩ := restores_of_tokenize htokens
  obtain ⟨-, hspaced⟩ := placed_of_tokenize htokens
  have hscan : scan (lead ++ layOut written).toList = (written.map Prod.fst).flatMap pieces := by
    rw [String.toList_append, scan_append_of_isBlank (by simpa [Text.isAllBlank] using hlead)]
    apply scan_layOut hblank _ hgaps
    intro pair hmem
    exact hgenuine pair.1 (List.mem_map_of_mem hmem)
  rw [tokenize_eq_ok_iff, hscan]
  refine ⟨?_, ?_, ofLexemes_flatMap_pieces hgenuine hspaced hsettled⟩
  · -- Without any piece the formula would have been blank.
    rw [← Bool.not_eq_true, Text.isAllBlank, List.all_eq_true, ← scan_eq_nil_iff, hscan]
    intro hnone
    have hpieces : kept.flatMap pieces = [] :=
      List.sublist_nil.mp (hnone ▸ hsheds.sublist.flatMap pieces)
    rw [hkept, scan_eq_nil_iff] at hpieces
    rw [Text.isAllBlank, List.all_eq_true.mpr hpieces] at hnotBlank
    cases hnotBlank
  · rw [Parentheses.validate_eq_ok_iff_depth, Parentheses.depth] at hvalid ⊢
    rw [← Parentheses.depthFrom_skeleton] at hvalid ⊢
    rw [String.toList_append, Parentheses.skeleton_append, skeleton_of_isAllBlank hlead,
      List.nil_append, skeleton_layOut hblank, skeleton_of_tokenize htokens, hvalid]

/-- A sign, a multiplication that was understood and a minus in front of a sign are read again,
among white space of several kinds. -/
theorem tokenize_layOut_with_signs :
    ∃ written : List (Token × String), tokenize "-2(3)--4" = .ok (written.map Prod.fst) ∧
      Text.isAllBlank "\n" = true ∧ (∀ pair ∈ written, Text.isAllBlank pair.2 = true) ∧
      (∀ pair ∈ written.dropLast, pair.2 ≠ "") ∧
      layOut written = "-2\u3000× (\t\u20033 )\u00a0-\u2028-4 " ∧
      tokenize ("\n" ++ layOut written) = .ok (written.map Prod.fst) := by
  have htokens : tokenize "-2(3)--4" = .ok [number (.neg (.ofNat 2)) "-2", impliedTimes,
      paren true, (Literal.ofNat 3).token, paren false, OperatorSign.minus.token,
      number (.neg (.ofNat 4)) "-4"] := by decide +kernel
  refine ⟨[(number (.neg (.ofNat 2)) "-2", "\u3000"), (impliedTimes, " "), (paren true, "\t\u2003"),
    ((Literal.ofNat 3).token, " "), (paren false, "\u00a0"), (OperatorSign.minus.token, "\u2028"),
    (number (.neg (.ofNat 4)) "-4", " ")], htokens, by decide, by decide, by decide,
    by decide +kernel, ?_⟩
  exact tokenize_layOut htokens (by decide) (by decide) (by decide)

end Token

end SciCalc
