import SciCalc.Proofs.Decimal.Printed
import SciCalc.Proofs.Formula.Tokenizing

/-! # Numbers in a formula

A written number is one numeral of the formula, unless what follows could still belong to it.
Where an operand is expected, the text of a finite double, its minus included, becomes one token:
the number itself.
-/

namespace SciCalc

namespace Lexeme

/-- Whether a numeral ends before the text. -/
def EndsNumeral (rest : List Char) : Prop :=
  ∀ c ∈ rest.head?, c.isDigit = false ∧ c ≠ '.' ∧ c ≠ 'e' ∧ c ≠ 'E'

theorem endsNumeral_nil : EndsNumeral [] := by
  simp [EndsNumeral]

theorem endsNumeral_sign (sign : Formula.OperatorSign) (rest : List Char) :
    EndsNumeral (sign.char :: rest) := by
  cases sign <;> simp [EndsNumeral, Formula.OperatorSign.char]

theorem EndsNumeral.isDigit_head {rest : List Char} (hends : EndsNumeral rest) :
    ∀ c ∈ rest.head?, c.isDigit = false :=
  fun c hc => (hends c hc).1

theorem splitPoint_of_head {cs : List Char} (hhead : ∀ c ∈ cs.head?, c ≠ '.') :
    splitPoint cs = ([], cs) := by
  unfold splitPoint
  split
  next rest => exact absurd rfl (hhead '.' rfl)
  · rfl

theorem splitPower_of_head {cs : List Char} (hhead : ∀ c ∈ cs.head?, c ≠ 'e' ∧ c ≠ 'E') :
    splitPower cs = ([], cs) := by
  cases cs with
  | nil => rfl
  | cons mark rest =>
      obtain ⟨hsmall, hlarge⟩ := hhead mark rfl
      simp [splitPower, hsmall, hlarge]

/-! ## The longest numeral -/

theorem splitPower_spelled (power : SpelledPower) (rest : List Char) :
    splitPower (power.chars ++ rest) =
      (power.chars ++ rest.takeWhile Char.isDigit, rest.dropWhile Char.isDigit) := by
  have hmark : (power.mark == 'e' || power.mark == 'E') = true := by simpa using power.mark_eq
  simp only [SpelledPower.chars, List.cons_append, splitPower, power.splitSign_eq, hmark,
    List.takeWhile_append_of_pos power.isDigit_of_mem,
    List.dropWhile_append_of_pos power.isDigit_of_mem]
  simp [power.digits_ne_nil]

theorem forall_isDigit_takeWhile (cs : List Char) :
    ∀ c ∈ cs.takeWhile Char.isDigit, c.isDigit = true :=
  fun c hc => List.all_eq_true.mp List.all_takeWhile c hc

theorem exists_fraction (cs : List Char) :
    ∃ fraction : Option (List Char), (∀ digits ∈ fraction, ∀ c ∈ digits, c.isDigit = true) ∧
      (splitPoint cs).1 =
        match fraction with
        | none => []
        | some digits => '.' :: digits := by
  unfold splitPoint
  split
  next rest =>
    refine ⟨some (rest.takeWhile Char.isDigit), fun digits hdigits => ?_, rfl⟩
    obtain rfl := Option.some.inj hdigits
    exact forall_isDigit_takeWhile rest
  · exact ⟨none, by simp, rfl⟩

theorem exists_power (cs : List Char) :
    ∃ power : Option SpelledPower, (splitPower cs).1 =
      match power with
      | none => []
      | some power => power.chars := by
  cases cs with
  | nil => exact ⟨none, rfl⟩
  | cons mark rest =>
      simp only [splitPower]
      split
      next hmark =>
        simp only [Bool.and_eq_true, Bool.or_eq_true, beq_iff_eq, Bool.not_eq_true',
          List.isEmpty_eq_false_iff] at hmark
        have hsign : (splitSign rest).1 = [] ∨ (splitSign rest).1 = ['+'] ∨
            (splitSign rest).1 = ['-'] := by
          unfold splitSign
          split <;> simp
        exact ⟨some ⟨mark, (splitSign rest).1, (splitSign rest).2.takeWhile Char.isDigit,
          hmark.1, hsign, hmark.2, forall_isDigit_takeWhile _⟩, rfl⟩
      · exact ⟨none, rfl⟩

/-- The longest numeral at the start of a text is a number spelled out. -/
theorem exists_spelled {cs : List Char} (hstarts : startsNumeral cs = true) :
    ∃ spelled : Spelled, spelled.chars = (splitNumeral cs).1 := by
  obtain ⟨fraction, hfraction, hpoint⟩ := exists_fraction (cs.dropWhile Char.isDigit)
  obtain ⟨power, hpower⟩ := exists_power (splitPoint (cs.dropWhile Char.isDigit)).2
  have hdigit : cs.takeWhile Char.isDigit ≠ [] ∨ fraction.getD [] ≠ [] := by
    match cs with
    | [] => simp [startsNumeral] at hstarts
    | [c] => exact .inl (by simp_all [startsNumeral])
    | c :: next :: rest =>
        by_cases hc : c.isDigit = true
        · exact .inl (by simp [hc])
        · simp only [startsNumeral, hc, Bool.false_or, Bool.and_eq_true, beq_iff_eq] at hstarts
          obtain ⟨rfl, hnext⟩ := hstarts
          -- The text begins with the point, so the digits behind it are the fraction.
          cases fraction with
          | none => simp [splitPoint] at hpoint
          | some digits =>
              right
              rintro rfl
              simp [splitPoint, hnext] at hpoint
  refine ⟨⟨cs.takeWhile Char.isDigit, fraction, power, forall_isDigit_takeWhile cs, hfraction,
    hdigit⟩, ?_⟩
  simp only [splitNumeral, hpoint, hpower, List.append_assoc]
  rfl

/-- What a numeral with a fraction or a power of ten takes from the text behind it: more digits, and
a power of ten if it has none. -/
def runOn (hasPower : Bool) (rest : List Char) : List Char :=
  rest.takeWhile Char.isDigit ++
    if hasPower then [] else (splitPower (rest.dropWhile Char.isDigit)).1

theorem runOn_eq_nil_iff {hasPower : Bool} {rest : List Char} :
    runOn hasPower rest = [] ↔
      (∀ c ∈ rest.head?, c.isDigit = false) ∧ (hasPower = true ∨ (splitPower rest).1 = []) := by
  cases rest with
  | nil => simp [runOn, splitPower]
  | cons c tail =>
      cases hdigit : c.isDigit with
      | true => simp [runOn, hdigit]
      | false => cases hasPower <;> simp [runOn, hdigit]

theorem runOn_of_endsNumeral (hasPower : Bool) {rest : List Char} (hends : EndsNumeral rest) :
    runOn hasPower rest = [] := by
  have hpower : ∀ c ∈ rest.head?, c ≠ 'e' ∧ c ≠ 'E' := fun c hc => (hends c hc).2.2
  exact runOn_eq_nil_iff.mpr ⟨hends.isDigit_head, .inr (by rw [splitPower_of_head hpower])⟩

/-- A number spelled out with a fraction or a power of ten runs on into the text behind it. -/
theorem splitNumeral_runOn (spelled : Spelled)
    (hmark : spelled.fraction ≠ none ∨ spelled.power ≠ none) (rest : List Char) :
    (splitNumeral (spelled.chars ++ rest)).1 =
      spelled.chars ++ runOn spelled.power.isSome rest := by
  obtain ⟨whole, fraction, power, hwhole, hfraction, _⟩ := spelled
  simp only [Spelled.chars, Spelled.pointChars, Spelled.powerChars, splitNumeral, runOn,
    List.append_assoc, List.takeWhile_append_of_pos hwhole, List.dropWhile_append_of_pos hwhole]
  have hpoint : Char.isDigit '.' = false := rfl
  cases power with
  | some power =>
      have hstop : ∀ c ∈ (power.chars ++ rest).head?, c.isDigit = false ∧ c ≠ '.' := by
        intro c hc
        obtain rfl : power.mark = c := by simpa [SpelledPower.chars] using hc
        exact ⟨power.isDigit_mark, power.mark_ne (by decide) (by decide)⟩
      have hdigit : ∀ c ∈ (power.chars ++ rest).head?, c.isDigit = false :=
        fun c hc => (hstop c hc).1
      cases fraction with
      | none =>
          simp only [List.nil_append, takeWhile_of_head hdigit, dropWhile_of_head hdigit,
            splitPoint_of_head fun c hc => (hstop c hc).2, splitPower_spelled, Option.isSome_some,
            if_true, List.append_nil]
      | some digits =>
          have hdigits := hfraction digits rfl
          simp only [List.cons_append, splitPoint, List.takeWhile_cons, List.dropWhile_cons, hpoint,
            Bool.false_eq_true, if_false, List.takeWhile_append_of_pos hdigits,
            List.dropWhile_append_of_pos hdigits, takeWhile_of_head hdigit,
            dropWhile_of_head hdigit, splitPower_spelled, Option.isSome_some, if_true,
            List.append_nil, List.nil_append]
  | none =>
      cases fraction with
      | none => exact absurd hmark (by simp)
      | some digits =>
          have hdigits := hfraction digits rfl
          simp only [List.cons_append, splitPoint, List.takeWhile_cons, List.dropWhile_cons, hpoint,
            Bool.false_eq_true, if_false, List.takeWhile_append_of_pos hdigits,
            List.dropWhile_append_of_pos hdigits, List.append_assoc, List.nil_append,
            Option.isSome_none]

/-- A number spelled out in front of a text is a start of the longest numeral there. It is all of
it if what follows cannot belong to a numeral. -/
theorem exists_splitNumeral_eq (spelled : Spelled) (rest : List Char) :
    ∃ extra, (splitNumeral (spelled.chars ++ rest)).1 = spelled.chars ++ extra ∧
      (EndsNumeral rest → extra = []) := by
  by_cases hmark : spelled.fraction ≠ none ∨ spelled.power ≠ none
  · exact ⟨_, splitNumeral_runOn spelled hmark rest, runOn_of_endsNumeral _⟩
  · -- The number is digits only, and can still get a point.
    simp only [not_or, not_not] at hmark
    obtain ⟨whole, fraction, power, hwhole, hfraction, _⟩ := spelled
    obtain ⟨rfl, rfl⟩ := hmark
    simp only [Spelled.chars, Spelled.pointChars, Spelled.powerChars, splitNumeral,
      List.append_assoc, List.takeWhile_append_of_pos hwhole, List.dropWhile_append_of_pos hwhole]
    refine ⟨_, by simp only [List.nil_append]; rfl, fun hends => ?_⟩
    rw [takeWhile_of_head hends.isDigit_head, dropWhile_of_head hends.isDigit_head,
      splitPoint_of_head fun c hc => (hends c hc).2.1,
      splitPower_of_head fun c hc => (hends c hc).2.2]
    rfl

section Written

variable (written : Written) (rest : List Char)

/-- A written number begins a numeral. -/
theorem scan_written_append :
    scan (written.chars ++ rest) = numeral (splitNumeral (written.chars ++ rest)).1 ::
      scan (splitNumeral (written.chars ++ rest)).2 := by
  obtain ⟨first, tail, hfirst, hchars⟩ := written.exists_chars_eq_cons
  have hstarts : startsNumeral (first :: (tail ++ rest)) = true := by
    cases hrest : tail ++ rest <;> simp [startsNumeral, hfirst]
  rw [hchars, List.cons_append, scan_cons (isBlank_of_numeric
    (mem_numericChars_of_isDigit hfirst)), split, if_pos hstarts]

variable {rest} (hends : EndsNumeral rest)

include hends

/-- The longest numeral at the start of a written number is the number. -/
theorem splitNumeral_written :
    splitNumeral (written.chars ++ rest) = (written.chars, rest) := by
  obtain ⟨extra, hnumeral, hextra⟩ := exists_splitNumeral_eq written.spelled rest
  have hall := splitNumeral_append (written.chars ++ rest)
  rw [hextra hends, List.append_nil, written.chars_spelled] at hnumeral
  rw [hnumeral] at hall
  exact Prod.ext hnumeral (List.append_cancel_left hall)

end Written

/-- A written number with a fraction or a power of ten runs on into the text behind it. -/
theorem splitNumeral_written_runOn {written : Written}
    (hmark : written.fraction ≠ [] ∨ written.power ≠ none) (rest : List Char) :
    (splitNumeral (written.chars ++ rest)).1 =
      written.chars ++ runOn written.power.isSome rest := by
  have hspelled : written.spelled.fraction ≠ none ∨ written.spelled.power ≠ none := by
    simpa [Written.spelled] using hmark
  have hnumeral := splitNumeral_runOn written.spelled hspelled rest
  rwa [written.chars_spelled, Written.spelled, Option.isSome_map] at hnumeral

end Lexeme

namespace Token

/-- Whether an operand is expected behind the token: a minus is a sign there, and no
multiplication is understood. -/
def ExpectsOperand (previous : Option Token) : Prop :=
  signMayFollow previous = true ∧ ∀ token, impliesTimes previous token = false

theorem expectsOperand_none : ExpectsOperand none := ⟨rfl, impliesTimes_none⟩

theorem expectsOperand_sign (sign : Formula.OperatorSign) : ExpectsOperand (some sign.token) :=
  ⟨rfl, impliesTimes_after_operator _ _⟩

theorem ofNumeral_toText {x : Double} (hfinite : x.isFinite = true) :
    ofNumeral x.toText = .ok (number x (some x.toText)) := by
  have hinfinite : x.isInfinite = false := by
    cases x <;> simp_all [Double.isFinite, Double.isInfinite]
  simp [ofNumeral, Double.ofText?_toText hfinite, hinfinite]

/-- Where an operand is expected, a written number begins a token with its sign. -/
theorem ofLexemes_scan_signed (written : Written) (negative : Bool) {previous : Option Token}
    (hprevious : ExpectsOperand previous) (rest : List Char) :
    ofLexemes previous (Lexeme.scan ((if negative then ['-'] else []) ++ written.chars ++ rest)) =
      ofNumeral (String.ofList ((if negative then ['-'] else []) ++
        (Lexeme.splitNumeral (written.chars ++ rest)).1)) >>= fun token =>
        (token :: ·) <$> ofLexemes (some token)
          (Lexeme.scan (Lexeme.splitNumeral (written.chars ++ rest)).2) := by
  have hplace : ∀ token, placeAfter previous token = (token :: ·) := fun token =>
    funext (placeAfter_of_not_impliesTimes (hprevious.2 token))
  have hscan := Lexeme.scan_written_append written rest
  cases negative with
  | true =>
      -- The minus is a piece of its own, and becomes a part of the number only here.
      have hminus := Lexeme.scan_sign .minus (written.chars ++ rest)
      rw [hscan, Formula.OperatorSign.char] at hminus
      simp only [if_true, List.cons_append, List.nil_append]
      rw [hminus, ofLexemes.eq_2, if_pos hprevious.1]
      simp only [hplace]
  | false =>
      simp only [Bool.false_eq_true, if_false, List.nil_append]
      rw [hscan, ofLexemes.eq_3]
      simp only [hplace]

/-- A written number with its sign becomes one token where an operand is expected. -/
theorem ofLexemes_scan_written {written : Written} {negative : Bool} {token : Token}
    (htoken : ofNumeral (String.ofList ((if negative then ['-'] else []) ++ written.chars)) =
      .ok token)
    {previous : Option Token} (hprevious : ExpectsOperand previous) {rest : List Char}
    (hends : Lexeme.EndsNumeral rest) :
    ofLexemes previous
        (Lexeme.scan ((if negative then ['-'] else []) ++ written.chars ++ rest)) =
      (token :: ·) <$> ofLexemes (some token) (Lexeme.scan rest) := by
  rw [ofLexemes_scan_signed written negative hprevious,
    Lexeme.splitNumeral_written written hends, htoken, bind_ok]

/-- The text of a finite double becomes the number where an operand is expected. -/
theorem ofLexemes_scan_toText {x : Double} (hfinite : x.isFinite = true) {previous : Option Token}
    (hprevious : ExpectsOperand previous) {rest : List Char} (hends : Lexeme.EndsNumeral rest) :
    ofLexemes previous (Lexeme.scan (x.toText.toList ++ rest)) =
      (number x (some x.toText) :: ·) <$>
        ofLexemes (some (number x (some x.toText))) (Lexeme.scan rest) := by
  have hnumeral := ofNumeral_toText hfinite
  obtain ⟨written, htext, -⟩ := Double.exists_written hfinite
  generalize x.toText = text at htext hnumeral ⊢
  subst htext
  rw [String.toList_ofList]
  exact ofLexemes_scan_written hnumeral hprevious hends

end Token

end SciCalc
