import SciCalc.Decimal.Numeral
import SciCalc.Formula.Lexeme
import SciCalc.Proofs.Decimal.ReadingBack
import SciCalc.Proofs.Runs

/-! # Numbers spelled out

A number is spelled out with digits and at most one point, with a digit on at least one side of
it, and with a power of ten if there is one, which has at least one digit. Such a text is read as
the decimal that it spells out, with either sign in front of it.
-/

namespace SciCalc

/-! ## Characters of numbers -/

/-- The characters of numbers. -/
def numericChars : List Char :=
  ['0', '1', '2', '3', '4', '5', '6', '7', '8', '9', '.', 'e', '+', '-']

theorem exists_digitChar_of_isDigit {c : Char} (hdigit : c.isDigit = true) :
    ∃ n < 10, Nat.digitChar n = c := by
  obtain ⟨hlower, hupper⟩ := Char.isDigit_iff_toNat.mp hdigit
  have hzero : '0'.toNat = 48 := rfl
  have hnine : '9'.toNat = 57 := rfl
  refine ⟨c.toNat - 48, by omega, ?_⟩
  rw [← Char.toNat_inj, Nat.toNat_digitChar_of_lt_ten (by omega)]
  omega

theorem mem_numericChars_of_isDigit {c : Char} (hdigit : c.isDigit = true) : c ∈ numericChars := by
  have hall : ∀ n < 10, Nat.digitChar n ∈ numericChars := by decide
  obtain ⟨n, hn, rfl⟩ := exists_digitChar_of_isDigit hdigit
  exact hall n hn

theorem isAlpha_of_isDigit {c : Char} (hdigit : c.isDigit = true) : c.isAlpha = false := by
  have hall : ∀ n < 10, (Nat.digitChar n).isAlpha = false := by decide
  obtain ⟨n, hn, rfl⟩ := exists_digitChar_of_isDigit hdigit
  exact hall n hn

theorem isBlank_of_numeric {c : Char} (hnumeric : c ∈ numericChars) :
    Text.isBlank c = false := by
  have hall : (numericChars.all fun c => !Text.isBlank c) = true := by decide
  simpa using List.all_eq_true.mp hall c hnumeric

theorem asciiDigit_of_numeric {c : Char} (hnumeric : c ∈ numericChars) :
    Text.asciiDigit c = c := by
  have hall : (numericChars.all fun c => Text.asciiDigit c == c) = true := by decide
  simpa using List.all_eq_true.mp hall c hnumeric

theorem toLower_of_isDigit {c : Char} (hdigit : c.isDigit = true) : c.toLower = c := by
  have hall : (numericChars.all fun c => c.toLower == c) = true := by decide
  simpa using List.all_eq_true.mp hall c (mem_numericChars_of_isDigit hdigit)

/-! ## Plain texts -/

theorem Text.trimBoth_of_forall {α : Type} {drops : α → Bool} {xs : List α}
    (hkeeps : ∀ x ∈ xs, drops x = false) : trimBoth drops xs = xs := by
  have hstart : xs.dropWhile drops = xs :=
    dropWhile_of_head fun x hx => hkeeps x (List.mem_of_mem_head? hx)
  have hend : xs.reverse.dropWhile drops = xs.reverse :=
    dropWhile_of_head fun x hx => hkeeps x (List.mem_reverse.mp (List.mem_of_mem_head? hx))
  rw [trimBoth, hstart, dropTrailing, hend, List.reverse_reverse]

theorem Numeral.dropSeparators?_of_notMem {cs : List Char} (hplain : '_' ∉ cs) :
    dropSeparators? cs = some cs := by
  induction cs with
  | nil => rfl
  | cons c rest ih =>
      rw [List.mem_cons, not_or] at hplain
      rw [dropSeparators?.eq_4, ih hplain.2]
      · rfl
      · rintro rfl
        exact hplain.1 rfl
      · rintro next tail rfl
        exact hplain.2 (by simp)

/-- A text of the characters of numbers has no padding, no other script and no underscores. -/
theorem Numeral.ofText?_of_numeric {cs : List Char} (hnumeric : ∀ c ∈ cs, c ∈ 'E' :: numericChars) :
    ofText? (String.ofList cs) = ofAscii? cs := by
  have hplainChar : ∀ c ∈ cs, Text.isBlank c = false ∧ Text.asciiDigit c = c ∧ c ≠ '_' := by
    intro c hc
    rcases List.mem_cons.mp (hnumeric c hc) with rfl | hmem
    · decide
    · refine ⟨isBlank_of_numeric hmem, asciiDigit_of_numeric hmem, ?_⟩
      rintro rfl
      exact absurd hmem (by decide)
  have htrim : Text.trimBoth isPadding cs = cs :=
    Text.trimBoth_of_forall fun c hc => by simp [isPadding, (hplainChar c hc).1]
  have hascii : cs.map Text.asciiDigit = cs := by
    rw [List.map_congr_left fun c hc => (hplainChar c hc).2.1, List.map_id']
  have hplain : '_' ∉ cs := fun hmem => (hplainChar _ hmem).2.2 rfl
  rw [ofText?, String.toList_ofList, htrim, hascii, dropSeparators?_of_notMem hplain,
    Option.bind_some]

/-- Behind its sign, a text that begins with a digit or with a point is read as a decimal. -/
theorem Numeral.ofAscii?_signed (negative : Bool) {first : Char}
    (hfirst : first.isDigit = true ∨ first = '.') (rest : List Char) :
    ofAscii? ((if negative then ['-'] else []) ++ first :: rest) =
      (decimal? negative (first :: rest)).map .decimal := by
  have hplain : first ≠ '-' ∧ first ≠ '+' ∧ first.toLower = first ∧ first.isAlpha = false := by
    rcases hfirst with hdigit | rfl
    · refine ⟨?_, ?_, toLower_of_isDigit hdigit, isAlpha_of_isDigit hdigit⟩ <;> rintro rfl <;>
        exact absurd hdigit (by decide)
    · decide
  have hsplit : splitSign ((if negative then ['-'] else []) ++ first :: rest) =
      (negative, first :: rest) := by
    cases negative with
    | true => rfl
    | false => simp [splitSign, hplain.1, hplain.2.1]
  -- The words that are read as numbers begin with a letter, this text does not.
  have hword : ∀ word : String, (∀ c ∈ word.toList.head?, c.isAlpha = true) →
      (String.ofList ((first :: rest).map Char.toLower) == word) = false := by
    intro word hhead
    rw [beq_eq_false_iff_ne]
    rintro rfl
    have hletter := hhead first (by simp [hplain.2.2.1])
    exact absurd hletter (by simp [hplain.2.2.2])
  simp only [ofAscii?, hsplit, hword "inf" (by simp), hword "infinity" (by simp),
    hword "nan" (by simp)]
  rfl

/-! ## Spelling -/

/-- A power of ten as it is spelled: a mark, an optional sign, and at least one digit. -/
structure SpelledPower where
  mark : Char
  sign : List Char
  digits : List Char
  mark_eq : mark = 'e' ∨ mark = 'E'
  sign_eq : sign = [] ∨ sign = ['+'] ∨ sign = ['-']
  digits_ne_nil : digits ≠ []
  isDigit_of_mem : ∀ c ∈ digits, c.isDigit = true

/-- A number without its sign as it is spelled: the digits before the point, the point and the
digits after it if there is a point, and the power of ten if there is one. There is a digit before
the point or after it. -/
structure Spelled where
  whole : List Char
  fraction : Option (List Char)
  power : Option SpelledPower
  isDigit_of_mem_whole : ∀ c ∈ whole, c.isDigit = true
  isDigit_of_mem_fraction : ∀ digits ∈ fraction, ∀ c ∈ digits, c.isDigit = true
  hasDigit : whole ≠ [] ∨ fraction.getD [] ≠ []

namespace SpelledPower

variable (power : SpelledPower)

def chars : List Char := power.mark :: (power.sign ++ power.digits)

def value : Int :=
  if power.sign = ['-'] then -(Numeral.digitsValue power.digits : Int)
  else Numeral.digitsValue power.digits

theorem mem_numericChars {c : Char} (hmem : c ∈ power.chars) : c ∈ 'E' :: numericChars := by
  simp only [chars, List.mem_cons, List.mem_append] at hmem
  rcases hmem with rfl | hsign | hdigit
  · rcases power.mark_eq with hmark | hmark <;> rw [hmark] <;> decide
  · rcases power.sign_eq with heq | heq | heq <;> rw [heq] at hsign <;> simp at hsign <;>
      subst hsign <;> decide
  · exact List.mem_cons_of_mem _ (mem_numericChars_of_isDigit (power.isDigit_of_mem c hdigit))

theorem mark_ne {c : Char} (hsmall : c ≠ 'e') (hlarge : c ≠ 'E') : power.mark ≠ c := by
  rintro rfl
  exact power.mark_eq.elim hsmall hlarge

theorem isDigit_mark : power.mark.isDigit = false := by
  rcases power.mark_eq with heq | heq <;> rw [heq] <;> rfl

/-- Behind the optional sign a digit follows, so the sign is not longer. -/
theorem head_digits : ∀ c ∈ power.digits.head?, c ≠ '+' ∧ c ≠ '-' := by
  intro c hc
  have hdigit := power.isDigit_of_mem c (List.mem_of_mem_head? hc)
  refine ⟨?_, ?_⟩ <;> rintro rfl <;> exact absurd hdigit (by decide)

theorem splitSign_eq (rest : List Char) :
    Lexeme.splitSign (power.sign ++ power.digits ++ rest) = (power.sign, power.digits ++ rest) := by
  rcases power.sign_eq with heq | heq | heq
  · obtain ⟨first, tail, hdigits⟩ := List.exists_cons_of_ne_nil power.digits_ne_nil
    obtain ⟨hplus, hminus⟩ := power.head_digits first (by simp [hdigits])
    simp [heq, hdigits, Lexeme.splitSign, hplus, hminus]
  · rw [heq]
    rfl
  · rw [heq]
    rfl

theorem signedDigits?_eq :
    Numeral.signedDigits? (power.sign ++ power.digits) = some power.value := by
  have hall : power.digits.all Char.isDigit = true :=
    List.all_eq_true.mpr power.isDigit_of_mem
  have hsplit : Numeral.splitSign (power.sign ++ power.digits) =
      (decide (power.sign = ['-']), power.digits) := by
    rcases power.sign_eq with heq | heq | heq
    · obtain ⟨first, tail, hdigits⟩ := List.exists_cons_of_ne_nil power.digits_ne_nil
      obtain ⟨hplus, hminus⟩ := power.head_digits first (by simp [hdigits])
      simp [heq, hdigits, Numeral.splitSign, hplus, hminus]
    · rw [heq]
      rfl
    · rw [heq]
      rfl
  simp [Numeral.signedDigits?, hsplit, hall, power.digits_ne_nil, value]

end SpelledPower

namespace Spelled

variable (spelled : Spelled)

def pointChars : List Char :=
  match spelled.fraction with
  | none => []
  | some digits => '.' :: digits

def powerChars : List Char :=
  match spelled.power with
  | none => []
  | some power => power.chars

/-- The text of the number. -/
def chars : List Char := spelled.whole ++ (spelled.pointChars ++ spelled.powerChars)

def powerValue : Int :=
  match spelled.power with
  | none => 0
  | some power => power.value

/-- The decimal that the text spells out. -/
def decimal (negative : Bool) : Decimal :=
  ⟨negative, Numeral.digitsValue (spelled.whole ++ spelled.fraction.getD []),
    spelled.powerValue - (spelled.fraction.getD []).length⟩

theorem mem_numericChars {c : Char} (hmem : c ∈ spelled.chars) : c ∈ 'E' :: numericChars := by
  simp only [chars, List.mem_append] at hmem
  rcases hmem with hwhole | hpoint | hpower
  · exact List.mem_cons_of_mem _
      (mem_numericChars_of_isDigit (spelled.isDigit_of_mem_whole c hwhole))
  · unfold pointChars at hpoint
    split at hpoint
    · simp at hpoint
    next digits hdigits =>
      rcases List.mem_cons.mp hpoint with rfl | hfraction
      · decide
      · exact List.mem_cons_of_mem _
          (mem_numericChars_of_isDigit (spelled.isDigit_of_mem_fraction digits hdigits c hfraction))
  · unfold powerChars at hpower
    split at hpower
    · simp at hpower
    next power _ => exact power.mem_numericChars hpower

/-- The text begins with a digit, or with a point and a digit. -/
theorem startsNumeral_append (rest : List Char) :
    Lexeme.startsNumeral (spelled.chars ++ rest) = true := by
  have hdigits := spelled.isDigit_of_mem_whole
  cases hwhole : spelled.whole with
  | cons first tail =>
      have hfirst : first.isDigit = true := hdigits first (by simp [hwhole])
      rw [chars, hwhole, List.cons_append, List.cons_append]
      cases tail ++ (spelled.pointChars ++ spelled.powerChars) ++ rest <;>
        simp [Lexeme.startsNumeral, hfirst]
  | nil =>
      have hfraction : spelled.fraction.getD [] ≠ [] :=
        spelled.hasDigit.resolve_left (by simp [hwhole])
      cases hpoint : spelled.fraction with
      | none => simp [hpoint] at hfraction
      | some digits =>
          obtain ⟨next, tail, rfl⟩ := List.exists_cons_of_ne_nil (by simpa [hpoint] using hfraction)
          have hnext : next.isDigit = true :=
            spelled.isDigit_of_mem_fraction _ hpoint next (by simp)
          simp [chars, hwhole, pointChars, hpoint, Lexeme.startsNumeral, hnext]

/-- Whatever stands behind the point, the text begins with a digit or with a point. -/
theorem exists_eq_cons (tail : List Char) :
    ∃ first rest, (first.isDigit = true ∨ first = '.') ∧
      spelled.whole ++ (spelled.pointChars ++ tail) = first :: rest := by
  cases hwhole : spelled.whole with
  | cons first rest =>
      exact ⟨first, _, .inl (spelled.isDigit_of_mem_whole first (by simp [hwhole])), rfl⟩
  | nil =>
      have hfraction : spelled.fraction.getD [] ≠ [] :=
        spelled.hasDigit.resolve_left (by simp [hwhole])
      cases hpoint : spelled.fraction with
      | none => simp [hpoint] at hfraction
      | some digits => exact ⟨'.', digits ++ tail, .inr rfl, by simp [pointChars, hpoint]⟩

theorem exists_chars_eq_cons :
    ∃ first rest, (first.isDigit = true ∨ first = '.') ∧ spelled.chars = first :: rest :=
  spelled.exists_eq_cons spelled.powerChars

theorem mem_numericChars_of_signed (negative : Bool) :
    ∀ c ∈ (if negative then ['-'] else []) ++ spelled.chars, c ∈ 'E' :: numericChars := by
  intro c hc
  rcases List.mem_append.mp hc with hsign | hchars
  · split at hsign
    · obtain rfl := List.mem_singleton.mp hsign
      decide
    · simp at hsign
  · exact spelled.mem_numericChars hchars

/-! ## Reading -/

theorem head_powerChars : ∀ c ∈ spelled.powerChars.head?, c.isDigit = false ∧ c ≠ '.' := by
  unfold powerChars
  split
  · simp
  next power _ =>
    intro c hc
    obtain rfl : power.mark = c := by simpa [SpelledPower.chars] using hc
    exact ⟨power.isDigit_mark, power.mark_ne (by decide) (by decide)⟩

section Tail

variable {tail : List Char} (htail : ∀ c ∈ tail.head?, c.isDigit = false ∧ c ≠ '.')

include htail

theorem splitFraction_append :
    Numeral.splitFraction (spelled.pointChars ++ tail) = (spelled.fraction.getD [], tail) := by
  have hstop : ∀ c ∈ tail.head?, c.isDigit = false := fun c hc => (htail c hc).1
  unfold pointChars
  cases hfraction : spelled.fraction with
  | none =>
      simp only [List.nil_append, Option.getD_none]
      unfold Numeral.splitFraction
      split
      next rest =>
        exact absurd rfl (htail '.' rfl).2
      · rfl
  | some digits =>
      have hdigits := spelled.isDigit_of_mem_fraction digits hfraction
      simp only [List.cons_append, Numeral.splitFraction, List.takeWhile_append_of_pos hdigits,
        List.dropWhile_append_of_pos hdigits, takeWhile_of_head hstop, dropWhile_of_head hstop,
        List.append_nil, Option.getD_some]

theorem head_pointChars_append :
    ∀ c ∈ (spelled.pointChars ++ tail).head?, c.isDigit = false := by
  intro c hc
  unfold pointChars at hc
  split at hc
  · exact (htail c hc).1
  · obtain rfl : '.' = c := by simpa using hc
    rfl

/-- The digits and the point are read whatever stands behind them, and that is read as the power of
ten. -/
theorem decimal?_append (negative : Bool) :
    Numeral.decimal? negative (spelled.whole ++ (spelled.pointChars ++ tail)) =
      (Numeral.powerOfTen? tail).map fun power =>
        ⟨negative, Numeral.digitsValue (spelled.whole ++ spelled.fraction.getD []),
          power - (spelled.fraction.getD []).length⟩ := by
  have hhead := spelled.head_pointChars_append htail
  have hdigit : (spelled.whole.isEmpty && (spelled.fraction.getD []).isEmpty) = false := by
    simpa [imp_iff_not_or] using spelled.hasDigit
  simp only [Numeral.decimal?, List.takeWhile_append_of_pos spelled.isDigit_of_mem_whole,
    List.dropWhile_append_of_pos spelled.isDigit_of_mem_whole, takeWhile_of_head hhead,
    dropWhile_of_head hhead, List.append_nil, spelled.splitFraction_append htail, hdigit]
  rfl

theorem ofAscii?_append (negative : Bool) :
    Numeral.ofAscii?
        ((if negative then ['-'] else []) ++ (spelled.whole ++ (spelled.pointChars ++ tail))) =
      (Numeral.powerOfTen? tail).map fun power =>
        .decimal ⟨negative, Numeral.digitsValue (spelled.whole ++ spelled.fraction.getD []),
          power - (spelled.fraction.getD []).length⟩ := by
  obtain ⟨first, rest, hfirst, hcons⟩ := spelled.exists_eq_cons tail
  rw [hcons, Numeral.ofAscii?_signed negative hfirst, ← hcons, spelled.decimal?_append htail,
    Option.map_map]
  rfl

end Tail

theorem powerOfTen?_eq : Numeral.powerOfTen? spelled.powerChars = some spelled.powerValue := by
  unfold powerChars powerValue
  split
  · rfl
  next power _ =>
    simp [SpelledPower.chars, Numeral.powerOfTen?, power.mark_eq, power.signedDigits?_eq]

/-- A number is read the same way with the sign in front of it. -/
theorem ofAscii?_eq (negative : Bool) :
    Numeral.ofAscii? ((if negative then ['-'] else []) ++ spelled.chars) =
      some (.decimal (spelled.decimal negative)) := by
  rw [chars, spelled.ofAscii?_append spelled.head_powerChars, powerOfTen?_eq]
  rfl

/-- A number spelled out is read with its sign as the decimal that it spells out. -/
theorem ofText?_eq (negative : Bool) :
    Numeral.ofText? (String.ofList ((if negative then ['-'] else []) ++ spelled.chars)) =
      some (.decimal (spelled.decimal negative)) := by
  rw [Numeral.ofText?_of_numeric (spelled.mem_numericChars_of_signed negative),
    spelled.ofAscii?_eq]

/-- The double nearest to the number that is spelled out. -/
def nearest (negative : Bool) : Double := (spelled.decimal negative).toDouble

theorem doubleOfText?_eq (negative : Bool) :
    Double.ofText? (String.ofList ((if negative then ['-'] else []) ++ spelled.chars)) =
      some (spelled.nearest negative) := by
  rw [Double.ofText?, spelled.ofText?_eq]
  rfl

theorem neg_nearest (negative : Bool) : (spelled.nearest negative).neg = spelled.nearest !negative :=
  Decimal.neg_toDouble _ _ _

/-- A number is within the range with either sign or with none. -/
theorem isFinite_nearest (negative : Bool) :
    (spelled.nearest negative).isFinite = (spelled.nearest false).isFinite := by
  cases negative with
  | false => rfl
  | true =>
      have hneg := spelled.neg_nearest false
      rw [Bool.not_false] at hneg
      rw [← hneg, Double.isFinite_neg]

theorem isInfinite_nearest (negative : Bool) :
    (spelled.nearest negative).isInfinite = !(spelled.nearest false).isFinite := by
  have hnumber : spelled.nearest negative ≠ .nan := Decimal.toDouble_ne_nan _
  rw [Double.isInfinite_eq_not_isFinite hnumber, isFinite_nearest]

end Spelled

end SciCalc
