import SciCalc.Proofs.Formula.LexicalGrammar
import SciCalc.Proofs.Formula.Tokenizing

/-! # What the tokenizer accepts

A text has tokens if it is not blank, its parentheses are in order, and each of its pieces stands
for something. A text that has none is refused for one reason only: these three conditions are
looked at in this order, and of the pieces the first one that stands for nothing is blamed.
-/

namespace SciCalc

namespace Lexeme

open Formula

/-- The pieces that stand for something: numbers within the range of doubles, operator signs,
parentheses, and names of functions. -/
inductive Stands : Lexeme → Prop where
  | numeral (spelled : Spelled) (hfinite : (spelled.nearest false).isFinite = true) :
      Stands (numeral spelled.chars)
  | operator (sign : OperatorSign) : Stands (operator sign.char)
  | paren (isOpen : Bool) : Stands (paren isOpen)
  | word (function : UnaryFunction) : Stands (word function.name.toList)

/-- What is wrong with a piece that stands for nothing. -/
inductive Blames : Lexeme → ErrorKind → Prop where
  | numeral (spelled : Spelled) (hinfinite : (spelled.nearest false).isFinite = false) :
      Blames (numeral spelled.chars) .invalidExpression
  | word {letters : List Char}
      (hnone : ∀ function : UnaryFunction, function.name.toList ≠ letters) :
      Blames (word letters) .unknownFunction
  | stray (c : Char) : Blames (stray c) .invalidCharacter

/-- The first of the pieces that stands for nothing is blamed. -/
inductive FirstBlames : List Lexeme → ErrorKind → Prop where
  | here {piece : Lexeme} {rest : List Lexeme} {kind : ErrorKind} (hblames : piece.Blames kind) :
      FirstBlames (piece :: rest) kind
  | later {piece : Lexeme} {rest : List Lexeme} {kind : ErrorKind} (hstands : piece.Stands)
      (hrest : FirstBlames rest kind) : FirstBlames (piece :: rest) kind

theorem Regular.stands_or_blames {piece : Lexeme} (hregular : piece.Regular) :
    piece.Stands ∨ ∃ kind, piece.Blames kind := by
  cases hregular with
  | numeral spelled =>
      cases hfinite : (spelled.nearest false).isFinite with
      | true => exact .inl (.numeral spelled hfinite)
      | false => exact .inr ⟨_, .numeral spelled hfinite⟩
  | operator sign => exact .inl (.operator sign)
  | paren isOpen => exact .inl (.paren isOpen)
  | @word letters _ _ =>
      by_cases hname : ∃ function : UnaryFunction, function.name.toList = letters
      · obtain ⟨function, rfl⟩ := hname
        exact .inl (.word function)
      · exact .inr ⟨_, .word fun function heq => hname ⟨function, heq⟩⟩

theorem forall_stands_or_firstBlames {pieces : List Lexeme}
    (hpieces : ∀ piece ∈ pieces, piece.Stands ∨ ∃ kind, piece.Blames kind) :
    (∀ piece ∈ pieces, piece.Stands) ∨ ∃ kind, FirstBlames pieces kind := by
  induction pieces with
  | nil => exact .inl nofun
  | cons piece rest ih =>
      obtain ⟨hpiece, hrest⟩ := List.forall_mem_cons.mp hpieces
      rcases hpiece with hstands | ⟨kind, hblames⟩
      · rcases ih hrest with hall | ⟨kind, hfirst⟩
        · exact .inl (List.forall_mem_cons.mpr ⟨hstands, hall⟩)
        · exact .inr ⟨kind, .later hstands hfirst⟩
      · exact .inr ⟨kind, .here hblames⟩

theorem Munches.stands_or_blames {cs : List Char} {pieces : List Lexeme}
    (hmunches : Munches cs pieces) :
    ∀ piece ∈ pieces, piece.Stands ∨ ∃ kind, piece.Blames kind := by
  induction hmunches with
  | done => exact nofun
  | blank _ _ ih => exact ih
  | piece hregular _ _ ih => exact List.forall_mem_cons.mpr ⟨hregular.stands_or_blames, ih⟩
  | stray _ _ _ ih => exact List.forall_mem_cons.mpr ⟨.inr ⟨_, .stray _⟩, ih⟩

end Lexeme

namespace Token

open Lexeme

/-! ## From pieces to tokens -/

/-- A number with either sign in front of it becomes a token if it is within the range. -/
theorem ofNumeral_spelled (spelled : Spelled) (negative : Bool) :
    ofNumeral (String.ofList ((if negative then ['-'] else []) ++ spelled.chars)) =
      if (spelled.nearest false).isFinite then
        .ok (number (spelled.nearest negative)
          (some (String.ofList ((if negative then ['-'] else []) ++ spelled.chars))))
      else failWith .invalidExpression ("Número fuera de rango: " ++
        String.ofList ((if negative then ['-'] else []) ++ spelled.chars)) := by
  rw [ofNumeral, spelled.doubleOfText?_eq negative]
  simp only [spelled.isInfinite_nearest negative]
  cases (spelled.nearest false).isFinite <;> rfl

theorem ofNumeral_of_stands {text : List Char} (hstands : (Lexeme.numeral text).Stands)
    (negative : Bool) :
    ∃ token, ofNumeral (String.ofList ((if negative then ['-'] else []) ++ text)) = .ok token := by
  cases hstands with
  | numeral spelled hfinite => exact ⟨_, by rw [ofNumeral_spelled, if_pos hfinite]⟩

theorem ofNumeral_of_blames {text : List Char} {kind : ErrorKind}
    (hblames : (Lexeme.numeral text).Blames kind) (negative : Bool) :
    ∃ message, ofNumeral (String.ofList ((if negative then ['-'] else []) ++ text)) =
      failWith kind message := by
  cases hblames with
  | numeral spelled hinfinite => exact ⟨_, by rw [ofNumeral_spelled, hinfinite]; rfl⟩

theorem ofWord_of_blames {letters : List Char} {kind : ErrorKind}
    (hblames : (Lexeme.word letters).Blames kind) :
    ∃ message, ofWord (String.ofList letters) = failWith kind message := by
  cases hblames with
  | word hnone =>
      have hname : UnaryFunction.ofName? (String.ofList letters) = none := by
        refine List.find?_eq_none.mpr fun function _ heq => hnone function ?_
        rw [beq_iff_eq.mp heq, String.toList_ofList]
      exact ⟨_, by rw [ofWord, hname]; rfl⟩

section Step

variable {text : List Char} (previous : Option Token) (rest : List Lexeme)

/-- A number that stands for something becomes a token in front of the tokens that follow. -/
theorem ofLexemes_numeral_of_stands (hstands : (Lexeme.numeral text).Stands) :
    ∃ token, ofLexemes previous (.numeral text :: rest) =
      placeAfter previous token <$> ofLexemes (some token) rest := by
  obtain ⟨token, htoken⟩ : ∃ token, ofNumeral (String.ofList text) = .ok token :=
    ofNumeral_of_stands hstands false
  exact ⟨token, by rw [ofLexemes.eq_3, htoken, bind_ok]⟩

theorem ofLexemes_signed_of_stands (hmay : signMayFollow previous = true)
    (hstands : (Lexeme.numeral text).Stands) :
    ∃ token, ofLexemes previous (.operator '-' :: .numeral text :: rest) =
      placeAfter previous token <$> ofLexemes (some token) rest := by
  obtain ⟨token, htoken⟩ : ∃ token, ofNumeral (String.ofList ('-' :: text)) = .ok token :=
    ofNumeral_of_stands hstands true
  exact ⟨token, by rw [ofLexemes.eq_2, if_pos hmay, htoken, bind_ok]⟩

theorem ofLexemes_numeral_of_blames {kind : ErrorKind}
    (hblames : (Lexeme.numeral text).Blames kind) :
    ∃ message, ofLexemes previous (.numeral text :: rest) = failWith kind message := by
  obtain ⟨message, hmessage⟩ : ∃ message, ofNumeral (String.ofList text) = failWith kind message :=
    ofNumeral_of_blames hblames false
  exact ⟨message, by rw [ofLexemes.eq_3, hmessage]; rfl⟩

theorem ofLexemes_signed_of_blames (hmay : signMayFollow previous = true) {kind : ErrorKind}
    (hblames : (Lexeme.numeral text).Blames kind) :
    ∃ message, ofLexemes previous (.operator '-' :: .numeral text :: rest) =
      failWith kind message := by
  obtain ⟨message, hmessage⟩ :
      ∃ message, ofNumeral (String.ofList ('-' :: text)) = failWith kind message :=
    ofNumeral_of_blames hblames true
  exact ⟨message, by rw [ofLexemes.eq_2, if_pos hmay, hmessage]; rfl⟩

end Step

/-- Pieces that all stand for something become tokens. -/
theorem exists_tokens_of_stands {previous : Option Token} {pieces : List Lexeme}
    (hstands : ∀ piece ∈ pieces, piece.Stands) :
    ∃ tokens, ofLexemes previous pieces = .ok tokens := by
  induction previous, pieces using ofLexemes.induct with
  | case1 previous => exact ⟨[], rfl⟩
  | case2 previous text rest hmay ih =>
      obtain ⟨-, hnumeral, hrest⟩ := by simpa only [List.forall_mem_cons] using hstands
      obtain ⟨token, hplace⟩ := ofLexemes_signed_of_stands previous rest hmay hnumeral
      obtain ⟨tokens, htokens⟩ := ih token hrest
      exact ⟨_, by rw [hplace, htokens, Except.map_ok]⟩
  | case3 previous text rest hmay ih =>
      obtain ⟨tokens, htokens⟩ := ih (List.forall_mem_cons.mp hstands).2
      exact ⟨_, by rw [ofLexemes.eq_2, if_neg hmay, htokens, Except.map_ok]⟩
  | case4 previous text rest ih =>
      obtain ⟨hnumeral, hrest⟩ := List.forall_mem_cons.mp hstands
      obtain ⟨token, hplace⟩ := ofLexemes_numeral_of_stands previous rest hnumeral
      obtain ⟨tokens, htokens⟩ := ih token hrest
      exact ⟨_, by rw [hplace, htokens, Except.map_ok]⟩
  | case5 previous symbol rest hnext ih =>
      obtain ⟨tokens, htokens⟩ := ih (List.forall_mem_cons.mp hstands).2
      exact ⟨_, by rw [ofLexemes.eq_4 _ _ _ hnext, htokens, Except.map_ok]⟩
  | case6 previous isOpen rest ih =>
      obtain ⟨tokens, htokens⟩ := ih (List.forall_mem_cons.mp hstands).2
      exact ⟨_, by rw [ofLexemes.eq_5, htokens, Except.map_ok]⟩
  | case7 previous letters rest ih =>
      obtain ⟨hword, hrest⟩ := List.forall_mem_cons.mp hstands
      cases hword with
      | word function =>
          obtain ⟨tokens, htokens⟩ := ih (.function function.name) hrest
          exact ⟨_, by rw [ofLexemes_word, htokens, Except.map_ok]⟩
  | case8 previous c rest => cases (List.forall_mem_cons.mp hstands).1

/-- The first piece that stands for nothing gives the error. -/
theorem exists_message_of_firstBlames {previous : Option Token} {pieces : List Lexeme}
    {kind : ErrorKind} (hfirst : FirstBlames pieces kind) :
    ∃ message, ofLexemes previous pieces = failWith kind message := by
  induction previous, pieces using ofLexemes.induct with
  | case1 previous => cases hfirst
  | case2 previous text rest hmay ih =>
      cases hfirst with
      | here hblames => cases hblames
      | later _ hfirst =>
          cases hfirst with
          | here hblames => exact ofLexemes_signed_of_blames previous rest hmay hblames
          | later hnumeral hrest =>
              obtain ⟨token, hplace⟩ := ofLexemes_signed_of_stands previous rest hmay hnumeral
              obtain ⟨message, hmessage⟩ := ih token hrest
              exact ⟨message, by rw [hplace, hmessage]; rfl⟩
  | case3 previous text rest hmay ih =>
      cases hfirst with
      | here hblames => cases hblames
      | later _ hrest =>
          obtain ⟨message, hmessage⟩ := ih hrest
          exact ⟨message, by rw [ofLexemes.eq_2, if_neg hmay, hmessage]; rfl⟩
  | case4 previous text rest ih =>
      cases hfirst with
      | here hblames => exact ofLexemes_numeral_of_blames previous rest hblames
      | later hnumeral hrest =>
          obtain ⟨token, hplace⟩ := ofLexemes_numeral_of_stands previous rest hnumeral
          obtain ⟨message, hmessage⟩ := ih token hrest
          exact ⟨message, by rw [hplace, hmessage]; rfl⟩
  | case5 previous symbol rest hnext ih =>
      cases hfirst with
      | here hblames => cases hblames
      | later _ hrest =>
          obtain ⟨message, hmessage⟩ := ih hrest
          exact ⟨message, by rw [ofLexemes.eq_4 _ _ _ hnext, hmessage]; rfl⟩
  | case6 previous isOpen rest ih =>
      cases hfirst with
      | here hblames => cases hblames
      | later _ hrest =>
          obtain ⟨message, hmessage⟩ := ih hrest
          exact ⟨message, by rw [ofLexemes.eq_5, hmessage]; rfl⟩
  | case7 previous letters rest ih =>
      cases hfirst with
      | here hblames =>
          obtain ⟨message, hmessage⟩ := ofWord_of_blames hblames
          exact ⟨message, by simp only [ofLexemes, hmessage]; rfl⟩
      | later hword hrest =>
          cases hword with
          | word function =>
              obtain ⟨message, hmessage⟩ := ih (.function function.name) hrest
              exact ⟨message, by rw [ofLexemes_word, hmessage]; rfl⟩
  | case8 previous c rest =>
      cases hfirst with
      | here hblames => cases hblames with
        | stray => exact ⟨_, rfl⟩
      | later hstands _ => cases hstands

/-! ## From texts to tokens -/

/-- The texts of formulas: not blank, with balanced parentheses that are not nested too deep, and
split by maximal munch into pieces that stand for something. -/
structure Tokenizable (cs : List Char) : Prop where
  notBlank : ∃ c ∈ cs, Text.isBlank c = false
  balanced : Parentheses.Balanced cs
  nests : Parentheses.NestsWithin Settings.greatestDepth cs
  stands : ∃ pieces, Munches cs pieces ∧ ∀ piece ∈ pieces, piece.Stands

/-- The reason for which a text is refused. -/
inductive Refused (cs : List Char) : ErrorKind → Prop where
  | blank (hblank : ∀ c ∈ cs, Text.isBlank c = true) : Refused cs .invalidExpression
  | parentheses (hnotBlank : ∃ c ∈ cs, Text.isBlank c = false)
      (hviolates : ¬ (Parentheses.Balanced cs ∧
        Parentheses.NestsWithin Settings.greatestDepth cs)) :
      Refused cs .mismatchedParentheses
  | piece {pieces : List Lexeme} {kind : ErrorKind}
      (hnotBlank : ∃ c ∈ cs, Text.isBlank c = false) (hbalanced : Parentheses.Balanced cs)
      (hnests : Parentheses.NestsWithin Settings.greatestDepth cs)
      (hmunches : Munches cs pieces) (hfirst : FirstBlames pieces kind) : Refused cs kind

theorem tokenizable_or_refused (cs : List Char) :
    Tokenizable cs ∨ ∃ kind, Refused cs kind := by
  by_cases hblank : ∀ c ∈ cs, Text.isBlank c = true
  · exact .inr ⟨_, .blank hblank⟩
  have hnotBlank : ∃ c ∈ cs, Text.isBlank c = false := by simpa using hblank
  by_cases hparens :
      Parentheses.Balanced cs ∧ Parentheses.NestsWithin Settings.greatestDepth cs
  · have hmunches := munches_scan cs
    rcases forall_stands_or_firstBlames hmunches.stands_or_blames with hstands | ⟨kind, hfirst⟩
    · exact .inl ⟨hnotBlank, hparens.1, hparens.2, _, hmunches, hstands⟩
    · exact .inr ⟨kind, .piece hnotBlank hparens.1 hparens.2 hmunches hfirst⟩
  · exact .inr ⟨_, .parentheses hnotBlank hparens⟩

/-- A text that is not blank and whose parentheses are in order becomes what its pieces become. -/
theorem tokenize_eq_ofLexemes {formula : String}
    (hnotBlank : ∃ c ∈ formula.toList, Text.isBlank c = false)
    (hbalanced : Parentheses.Balanced formula.toList)
    (hnests : Parentheses.NestsWithin Settings.greatestDepth formula.toList) :
    tokenize formula = ofLexemes none (Lexeme.scan formula.toList) := by
  have hvalid := Parentheses.validate_eq_ok_iff.mpr ⟨hbalanced, hnests⟩
  rw [tokenize_of_not_blank hnotBlank, hvalid, bind_ok]

theorem Tokenizable.exists_tokens {formula : String} (haccepted : Tokenizable formula.toList) :
    ∃ tokens, tokenize formula = .ok tokens := by
  obtain ⟨hnotBlank, hbalanced, hnests, pieces, hmunches, hstands⟩ := haccepted
  rw [tokenize_eq_ofLexemes hnotBlank hbalanced hnests, ← munches_iff_eq_scan.mp hmunches]
  exact exists_tokens_of_stands hstands

theorem Refused.exists_message {formula : String} {kind : ErrorKind}
    (hrefused : Refused formula.toList kind) :
    ∃ message, tokenize formula = failWith kind message := by
  cases hrefused with
  | blank hblank =>
      have hall : Text.isAllBlank formula = true := by simpa [Text.isAllBlank] using hblank
      exact ⟨_, by rw [tokenize, hall, if_pos rfl]⟩
  | parentheses hnotBlank hviolates =>
      obtain ⟨message, hmessage⟩ := Parentheses.exists_message_of_violation hviolates
      exact ⟨message, by rw [tokenize_of_not_blank hnotBlank, hmessage]; rfl⟩
  | piece hnotBlank hbalanced hnests hmunches hfirst =>
      rw [tokenize_eq_ofLexemes hnotBlank hbalanced hnests, ← munches_iff_eq_scan.mp hmunches]
      exact exists_message_of_firstBlames hfirst

/-- The tokenizer accepts its lexical grammar and nothing else, and it refuses every other text
for the one reason that comes first. -/
theorem tokenize_verdict (formula : String) :
    ((∃ tokens, tokenize formula = .ok tokens) ↔ Tokenizable formula.toList) ∧
      (∀ kind, (∃ message, tokenize formula = .error (.calculation ⟨kind, message⟩)) ↔
        Refused formula.toList kind) ∧
      (Tokenizable formula.toList ∨ ∃ kind, Refused formula.toList kind) := by
  refine ⟨⟨?_, Tokenizable.exists_tokens⟩, fun kind => ⟨?_, Refused.exists_message⟩,
    tokenizable_or_refused _⟩
  · rintro ⟨tokens, htokens⟩
    refine (tokenizable_or_refused formula.toList).resolve_right ?_
    rintro ⟨kind, hrefused⟩
    obtain ⟨message, hmessage⟩ := hrefused.exists_message
    simp [hmessage] at htokens
  · rintro ⟨message, hmessage⟩
    rcases tokenizable_or_refused formula.toList with haccepted | ⟨other, hrefused⟩
    · obtain ⟨tokens, htokens⟩ := haccepted.exists_tokens
      simp [hmessage] at htokens
    · obtain ⟨second, hsecond⟩ := hrefused.exists_message
      obtain rfl : kind = other := by
        rw [hmessage] at hsecond
        simp only [failWith, Except.error.injEq, Fault.calculation.injEq,
          CalcError.mk.injEq] at hsecond
        exact hsecond.1
      exact hrefused

end Token

end SciCalc
