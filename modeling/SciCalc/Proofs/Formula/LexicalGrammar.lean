import SciCalc.Proofs.Formula.Numerals

/-! # The lexical grammar

The grammar has four classes of pieces: numbers spelled out, operator signs, parentheses, and
words of ASCII letters. A text is split by maximal munch: from the left, white space is passed
over, and the longest piece of any class that stands there is taken; a character at which no piece
begins is set aside. Every text can be split in exactly one way, and that is how it is scanned.
-/

namespace SciCalc.Lexeme

open Formula

/-- The pieces of the lexical grammar. -/
inductive Regular : Lexeme → Prop where
  | numeral (spelled : Spelled) : Regular (numeral spelled.chars)
  | operator (sign : OperatorSign) : Regular (operator sign.char)
  | paren (isOpen : Bool) : Regular (paren isOpen)
  | word {letters : List Char} (hletters : letters ≠ [])
      (halpha : ∀ c ∈ letters, c.isAlpha = true) : Regular (word letters)

/-- No piece at the start of the text is longer than the given one. -/
def IsLongest (piece : Lexeme) (cs : List Char) : Prop :=
  ∀ other : Lexeme, other.Regular → other.chars <+: cs → other.chars.length ≤ piece.chars.length

/-- The splitting of a text by maximal munch. -/
inductive Munches : List Char → List Lexeme → Prop where
  | done : Munches [] []
  | blank {c : Char} {rest : List Char} {pieces : List Lexeme} (hblank : Text.isBlank c = true)
      (hrest : Munches rest pieces) : Munches (c :: rest) pieces
  | piece {piece : Lexeme} {rest : List Char} {pieces : List Lexeme} (hregular : piece.Regular)
      (hlongest : piece.IsLongest (piece.chars ++ rest)) (hrest : Munches rest pieces) :
      Munches (piece.chars ++ rest) (piece :: pieces)
  | stray {c : Char} {rest : List Char} {pieces : List Lexeme} (hblank : Text.isBlank c = false)
      (hnone : ∀ other : Lexeme, other.Regular → ¬ other.chars <+: c :: rest)
      (hrest : Munches rest pieces) : Munches (c :: rest) (stray c :: pieces)

/-! ## The first character of a piece -/

theorem isBlank_of_isAlpha {c : Char} (halpha : c.isAlpha = true) : Text.isBlank c = false := by
  have hletter : (decide ('A'.val ≤ c.val ∧ c.val ≤ 'Z'.val) ||
      (decide ('a'.val ≤ c.val) && decide (c.val ≤ 'z'.val))) = true := halpha
  simp only [Bool.or_eq_true, Bool.and_eq_true, decide_eq_true_eq,
    UInt32.le_iff_toNat_le] at hletter
  change (65 ≤ c.toNat ∧ c.toNat ≤ 90) ∨ (97 ≤ c.toNat ∧ c.toNat ≤ 122) at hletter
  simp only [Text.isBlank, beq_eq_false_iff_ne, ne_eq, Bool.or_eq_false_iff, Bool.and_eq_false_iff,
    decide_eq_false_iff_not]
  omega

theorem isAlpha_sign (sign : OperatorSign) : sign.char.isAlpha = false := by
  cases sign <;> rfl

theorem startsNumeral_of_isAlpha {c : Char} (halpha : c.isAlpha = true) (rest : List Char) :
    startsNumeral (c :: rest) = false := by
  have hdigit : c.isDigit = false := by
    rw [← Bool.not_eq_true]
    exact fun hdigit => absurd halpha (by simp [isAlpha_of_isDigit hdigit])
  have hpoint : c ≠ '.' := by
    rintro rfl
    exact absurd halpha (by decide)
  cases rest <;> simp [startsNumeral, hdigit, hpoint]

theorem split_numeral (spelled : Spelled) {c : Char} {tail : List Char}
    (hchars : spelled.chars = c :: tail) (rest : List Char) :
    (split c (tail ++ rest)).1 = numeral (splitNumeral (spelled.chars ++ rest)).1 := by
  have hstarts := spelled.startsNumeral_append rest
  rw [hchars, List.cons_append] at hstarts ⊢
  simp [split, hstarts]

theorem split_word {c : Char} {tail : List Char} (halpha : ∀ x ∈ c :: tail, x.isAlpha = true)
    (rest : List Char) :
    (split c (tail ++ rest)).1 = word (c :: (tail ++ rest.takeWhile Char.isAlpha)) := by
  obtain ⟨hc, htail⟩ := List.forall_mem_cons.mp halpha
  have hsign : c ∉ operatorSigns := by
    intro hmem
    obtain ⟨sign, rfl⟩ := OperatorSign.exists_char_eq hmem
    exact absurd hc (by simp [isAlpha_sign])
  have hopen : c ≠ '(' := by
    rintro rfl
    exact absurd hc (by decide)
  have hclose : c ≠ ')' := by
    rintro rfl
    exact absurd hc (by decide)
  simp [split, startsNumeral_of_isAlpha hc, hsign, hopen, hclose, hc,
    List.takeWhile_append_of_pos htail]

theorem split_paren (isOpen : Bool) (rest : List Char) :
    split (if isOpen then '(' else ')') rest = (paren isOpen, rest) := by
  cases isOpen <;> cases rest <;> rfl

/-- What is split off where a piece stands is a piece that begins with it. -/
theorem regular_split {piece : Lexeme} (hregular : piece.Regular) {c : Char} {tail : List Char}
    (hchars : piece.chars = c :: tail) (rest : List Char) :
    (split c (tail ++ rest)).1.Regular ∧ ∃ extra,
      (split c (tail ++ rest)).1.chars = piece.chars ++ extra := by
  cases hregular with
  | numeral spelled =>
      obtain ⟨extra, hextra, -⟩ := exists_splitNumeral_eq spelled rest
      obtain ⟨longer, hlonger⟩ := exists_spelled (spelled.startsNumeral_append rest)
      rw [split_numeral spelled hchars, ← hlonger]
      exact ⟨.numeral longer, extra, by rw [chars, hlonger, hextra, chars]⟩
  | operator sign =>
      obtain ⟨rfl, rfl⟩ := List.cons.inj hchars
      rw [split_sign]
      exact ⟨.operator sign, [], rfl⟩
  | paren isOpen =>
      obtain ⟨rfl, rfl⟩ : (if isOpen then '(' else ')') = c ∧ [] = tail := by
        cases isOpen <;> exact List.cons.inj hchars
      rw [split_paren]
      exact ⟨.paren isOpen, [], (List.append_nil _).symm⟩
  | word hletters halpha =>
      simp only [chars] at hchars
      subst hchars
      rw [split_word halpha]
      refine ⟨.word (List.cons_ne_nil _ _) ?_, rest.takeWhile Char.isAlpha, rfl⟩
      intro x hx
      rw [← List.cons_append, List.mem_append] at hx
      exact hx.elim (halpha x) fun hmem => List.all_eq_true.mp List.all_takeWhile x hmem

/-- The text of a piece alone is split into that piece. -/
theorem split_chars {piece : Lexeme} (hregular : piece.Regular) {c : Char} {tail : List Char}
    (hchars : piece.chars = c :: tail) : (split c tail).1 = piece := by
  rw [← List.append_nil tail]
  cases hregular with
  | numeral spelled =>
      obtain ⟨extra, hextra, hends⟩ := exists_splitNumeral_eq spelled []
      rw [split_numeral spelled hchars, hextra, hends endsNumeral_nil, List.append_nil]
  | operator sign =>
      obtain ⟨rfl, rfl⟩ := List.cons.inj hchars
      rw [split_sign]
  | paren isOpen =>
      obtain ⟨rfl, rfl⟩ : (if isOpen then '(' else ')') = c ∧ [] = tail := by
        cases isOpen <;> exact List.cons.inj hchars
      rw [split_paren]
  | word hletters halpha =>
      simp only [chars] at hchars
      subst hchars
      rw [split_word halpha, List.takeWhile_nil, List.append_nil]

theorem Regular.chars_ne_nil {piece : Lexeme} (hregular : piece.Regular) : piece.chars ≠ [] := by
  cases hregular with
  | numeral spelled =>
      obtain ⟨first, rest, -, hchars⟩ := spelled.exists_chars_eq_cons
      rw [chars, hchars]
      exact List.cons_ne_nil _ _
  | operator sign => exact List.cons_ne_nil _ _
  | paren isOpen => cases isOpen <;> exact List.cons_ne_nil _ _
  | word hletters _ => exact hletters

theorem Regular.eq_of_chars_eq {first second : Lexeme} (hfirst : first.Regular)
    (hsecond : second.Regular) (hchars : first.chars = second.chars) : first = second := by
  obtain ⟨c, tail, htail⟩ := List.exists_cons_of_ne_nil hfirst.chars_ne_nil
  rw [← split_chars hfirst htail, ← split_chars hsecond (hchars ▸ htail)]

/-- No piece begins with white space. -/
theorem Regular.isBlank_head {piece : Lexeme} (hregular : piece.Regular) {c : Char}
    {tail : List Char} (hchars : piece.chars = c :: tail) : Text.isBlank c = false := by
  cases hregular with
  | numeral spelled =>
      obtain ⟨first, rest, hfirst, hspelled⟩ := spelled.exists_chars_eq_cons
      obtain ⟨rfl, -⟩ := List.cons.inj (hspelled.symm.trans hchars)
      rcases hfirst with hdigit | rfl
      · exact isBlank_of_numeric (mem_numericChars_of_isDigit hdigit)
      · rfl
  | operator sign =>
      obtain ⟨rfl, -⟩ := List.cons.inj hchars
      cases sign <;> rfl
  | paren isOpen =>
      obtain ⟨rfl, -⟩ : (if isOpen then '(' else ')') = c ∧ [] = tail := by
        cases isOpen <;> exact List.cons.inj hchars
      cases isOpen <;> rfl
  | word hletters halpha =>
      simp only [chars] at hchars
      exact isBlank_of_isAlpha (halpha c (by simp [hchars]))

/-! ## Maximal munch -/

/-- What is split off where a piece begins is a piece at least as long. -/
theorem regular_split_of_begins {other : Lexeme} (hregular : other.Regular) {c : Char}
    {rest : List Char} (hbegins : other.chars <+: c :: rest) :
    (split c rest).1.Regular ∧ other.chars.length ≤ (split c rest).1.chars.length := by
  obtain ⟨first, tail, hchars⟩ := List.exists_cons_of_ne_nil hregular.chars_ne_nil
  obtain ⟨behind, hbehind⟩ := hbegins
  rw [hchars, List.cons_append] at hbehind
  obtain ⟨rfl, rfl⟩ := List.cons.inj hbehind
  obtain ⟨hsplit, extra, hextra⟩ := regular_split hregular hchars behind
  refine ⟨hsplit, ?_⟩
  rw [hextra, List.length_append]
  exact Nat.le_add_right _ _

/-- What is split off is a longest piece, unless no piece begins there. -/
theorem split_cases (c : Char) (rest : List Char) :
    (split c rest).1.Regular ∨ split c rest = (stray c, rest) := by
  unfold split
  split
  next hstarts =>
    obtain ⟨spelled, hspelled⟩ := exists_spelled hstarts
    refine .inl ?_
    change (numeral (splitNumeral (c :: rest)).1).Regular
    rw [← hspelled]
    exact .numeral spelled
  split
  next hsign =>
    obtain ⟨sign, rfl⟩ := OperatorSign.exists_char_eq (List.contains_iff_mem.mp hsign)
    exact .inl (.operator sign)
  split
  · exact .inl (.paren true)
  split
  · exact .inl (.paren false)
  split
  next halpha =>
    refine .inl (.word (List.cons_ne_nil _ _) (List.forall_mem_cons.mpr ⟨halpha, ?_⟩))
    exact fun x hx => List.all_eq_true.mp List.all_takeWhile x hx
  · exact .inr rfl

theorem not_regular_stray (c : Char) : ¬ (stray c).Regular := nofun

theorem munches_scan (cs : List Char) : Munches cs (scan cs) := by
  induction cs using scan_induction with
  | nil => exact .done
  | blank c rest hblank ih =>
      rw [scan_cons_of_blank hblank]
      exact .blank hblank ih
  | piece c rest hblank ih =>
      rw [scan_cons hblank]
      rcases split_cases c rest with hregular | hstray
      · have hlongest : (split c rest).1.IsLongest (c :: rest) :=
          fun other hother hbegins => (regular_split_of_begins hother hbegins).2
        have hpiece := Munches.piece hregular (by rwa [split_append]) ih
        rwa [split_append] at hpiece
      · rw [hstray] at ih ⊢
        refine .stray hblank (fun other hother hbegins => ?_) ih
        have hsplit := (regular_split_of_begins hother hbegins).1
        rw [hstray] at hsplit
        exact not_regular_stray c hsplit

/-- A longest piece at the start of a text is what is split off. -/
theorem split_of_isLongest {piece : Lexeme} (hregular : piece.Regular) {c : Char}
    {tail rest : List Char} (hchars : piece.chars = c :: tail)
    (hlongest : piece.IsLongest (piece.chars ++ rest)) :
    split c (tail ++ rest) = (piece, rest) := by
  obtain ⟨hsplit, extra, hextra⟩ := regular_split hregular hchars rest
  have hall := split_append c (tail ++ rest)
  rw [← List.cons_append, ← hchars] at hall
  have hlength := hlongest _ hsplit ⟨_, hall⟩
  rw [hextra, List.length_append] at hlength
  obtain rfl : extra = [] := List.length_eq_zero_iff.mp (by omega)
  rw [List.append_nil] at hextra
  rw [hextra] at hall
  exact Prod.ext (hsplit.eq_of_chars_eq hregular hextra) (List.append_cancel_left hall)

/-- Splitting by maximal munch gives the pieces that are scanned, and nothing else. -/
theorem munches_iff_eq_scan {cs : List Char} {pieces : List Lexeme} :
    Munches cs pieces ↔ pieces = scan cs := by
  refine ⟨fun hmunches => ?_, fun hscan => hscan ▸ munches_scan cs⟩
  induction hmunches with
  | done => rfl
  | blank hblank _ ih => rw [scan_cons_of_blank hblank, ih]
  | @piece piece rest pieces hregular hlongest _ ih =>
      obtain ⟨c, tail, hchars⟩ := List.exists_cons_of_ne_nil hregular.chars_ne_nil
      have hsplit := split_of_isLongest hregular hchars hlongest
      rw [hchars, List.cons_append, scan_cons (hregular.isBlank_head hchars), hsplit, ih]
  | @stray c rest pieces hblank hnone _ ih =>
      rw [scan_cons hblank]
      rcases split_cases c rest with hregular | hstray
      · exact absurd ⟨_, split_append c rest⟩ (hnone _ hregular)
      · rw [hstray, ih]

end SciCalc.Lexeme
