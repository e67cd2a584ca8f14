import SciCalc.Proofs.Formula.Tree
import SciCalc.Proofs.Runs

/-! # Pieces of a text

The splitting of a text takes it from left to right, loses no character other than white space
and never stops early. A character that no piece longer than itself can hold cuts the text in
two: what stands before it is split as if it stood alone.
-/

namespace SciCalc.Lexeme

/-- Whether a character ends every numeral and every word. -/
def IsBreak (c : Char) : Prop :=
  c.isDigit = false ∧ c.isAlpha = false ∧ c ≠ '.' ∧ c ≠ '+' ∧ c ≠ '-'

theorem isBreak_opening : IsBreak '(' := by
  exact ⟨by decide, by decide, by decide, by decide, by decide⟩

theorem isBreak_closing : IsBreak ')' := by
  exact ⟨by decide, by decide, by decide, by decide, by decide⟩

/-! ## No character is lost -/

theorem splitPoint_append (cs : List Char) : (splitPoint cs).1 ++ (splitPoint cs).2 = cs := by
  unfold splitPoint
  split <;> simp [List.takeWhile_append_dropWhile]

theorem splitSign_append (cs : List Char) : (splitSign cs).1 ++ (splitSign cs).2 = cs := by
  unfold splitSign
  split <;> rfl

theorem splitPower_append (cs : List Char) : (splitPower cs).1 ++ (splitPower cs).2 = cs := by
  cases cs with
  | nil => rfl
  | cons mark rest =>
      simp only [splitPower]
      split
      · simp only [List.cons_append, List.append_assoc, List.takeWhile_append_dropWhile,
          splitSign_append]
      · rfl

theorem splitNumeral_append (cs : List Char) :
    (splitNumeral cs).1 ++ (splitNumeral cs).2 = cs := by
  simp only [splitNumeral, List.append_assoc, splitPower_append, splitPoint_append,
    List.takeWhile_append_dropWhile]

theorem splitNumeral_ne_nil {cs : List Char} (hstarts : startsNumeral cs = true) :
    (splitNumeral cs).1 ≠ [] := by
  match cs with
  | [] => simp [startsNumeral] at hstarts
  | [c] => simp_all [startsNumeral, splitNumeral]
  | c :: next :: rest =>
      by_cases hdigit : c.isDigit = true
      · simp [splitNumeral, hdigit]
      · simp only [startsNumeral, hdigit, Bool.false_or, Bool.and_eq_true, beq_iff_eq] at hstarts
        simp [splitNumeral, splitPoint, hstarts.1]

theorem split_append (c : Char) (rest : List Char) :
    (split c rest).1.chars ++ (split c rest).2 = c :: rest := by
  unfold split
  split
  · exact splitNumeral_append (c :: rest)
  split
  · rfl
  split
  · next hopen => simp [chars, hopen]
  split
  · next hclose => simp [chars, hclose]
  split
  · simp [chars, List.takeWhile_append_dropWhile]
  · rfl

theorem split_chars_ne_nil (c : Char) (rest : List Char) : (split c rest).1.chars ≠ [] := by
  unfold split
  split
  · next hstarts => exact splitNumeral_ne_nil hstarts
  split
  · simp [chars]
  split
  · simp [chars]
  split
  · simp [chars]
  split <;> simp [chars]

theorem split_rest_length_le (c : Char) (rest : List Char) :
    (split c rest).2.length ≤ rest.length := by
  have hlength := congrArg List.length (split_append c rest)
  have hpos := List.length_pos_iff.mpr (split_chars_ne_nil c rest)
  simp only [List.length_append, List.length_cons] at hlength
  omega

/-! ## The equations of the splitting -/

theorem scanFrom_eq_scan {fuel : Nat} {cs : List Char} (hfuel : cs.length ≤ fuel) :
    scanFrom fuel cs = scan cs := by
  -- Two amounts of fuel that both suffice give the same pieces.
  have hsame : ∀ (first second : Nat) (cs : List Char), cs.length ≤ first → cs.length ≤ second →
      scanFrom first cs = scanFrom second cs := by
    intro first
    induction first with
    | zero =>
        intro second cs hfirst _
        obtain rfl := List.length_eq_zero_iff.mp (Nat.le_zero.mp hfirst)
        cases second <;> rfl
    | succ first ih =>
        intro second cs hfirst hsecond
        cases cs with
        | nil => cases second <;> rfl
        | cons c rest =>
            cases second with
            | zero => simp at hsecond
            | succ second =>
                have hrest := split_rest_length_le c rest
                simp only [List.length_cons] at hfirst hsecond
                simp only [scanFrom]
                rw [ih second rest (by omega) (by omega),
                  ih second (split c rest).2 (by omega) (by omega)]
  exact hsame _ _ _ hfuel (Nat.le_refl _)

@[simp] theorem scan_nil : scan [] = [] := rfl

theorem scan_cons_of_blank {c : Char} (hblank : Text.isBlank c = true) (rest : List Char) :
    scan (c :: rest) = scan rest := by
  simp [scan, scanFrom, hblank]

theorem scan_cons {c : Char} (hblank : Text.isBlank c = false) (rest : List Char) :
    scan (c :: rest) = (split c rest).1 :: scan (split c rest).2 := by
  simp [scan, scanFrom, hblank, scanFrom_eq_scan (split_rest_length_le c rest)]

/-- A law of all splittings holds if it holds of the empty text, is kept by a white space in
front, and is kept by a piece in front. -/
theorem scan_induction {motive : List Char → Prop} (nil : motive [])
    (blank : ∀ c rest, Text.isBlank c = true → motive rest → motive (c :: rest))
    (piece : ∀ c rest, Text.isBlank c = false → motive (split c rest).2 → motive (c :: rest))
    (cs : List Char) : motive cs := by
  induction hlength : cs.length using Nat.strongRecOn generalizing cs with
  | ind length ih =>
      cases cs with
      | nil => exact nil
      | cons c rest =>
          subst hlength
          cases hblank : Text.isBlank c with
          | true => exact blank c rest hblank (ih rest.length (by simp) rest rfl)
          | false =>
              refine piece c rest hblank (ih (split c rest).2.length ?_ _ rfl)
              have := split_rest_length_le c rest
              simp only [List.length_cons]
              omega

/-! ## Breaks -/

section Break

variable {c : Char} (hbreak : IsBreak c) (second : List Char)

include hbreak

theorem startsNumeral_append_break (head : Char) (first : List Char) :
    startsNumeral (head :: (first ++ c :: second)) = startsNumeral (head :: first) := by
  cases first with
  | nil => simp [startsNumeral, hbreak.1]
  | cons next rest => rfl

theorem splitPoint_append_break (first : List Char) :
    splitPoint (first ++ c :: second) =
      ((splitPoint first).1, (splitPoint first).2 ++ c :: second) := by
  obtain ⟨hdigit, _, hpoint, _⟩ := hbreak
  cases first with
  | nil => simp [splitPoint, hpoint]
  | cons head tail =>
      by_cases hhead : head = '.'
      · simp only [hhead, List.cons_append, splitPoint, takeWhile_append_cons hdigit,
          dropWhile_append_cons hdigit]
      · simp [splitPoint, hhead]

theorem splitSign_append_break (first : List Char) :
    splitSign (first ++ c :: second) =
      ((splitSign first).1, (splitSign first).2 ++ c :: second) := by
  obtain ⟨_, _, _, hplus, hminus⟩ := hbreak
  cases first with
  | nil => simp [splitSign, hplus, hminus]
  | cons head tail =>
      by_cases hheadPlus : head = '+'
      · simp [hheadPlus, splitSign]
      · by_cases hheadMinus : head = '-'
        · simp [hheadMinus, splitSign]
        · simp [splitSign, hheadPlus, hheadMinus]

theorem splitPower_append_break (first : List Char) :
    splitPower (first ++ c :: second) =
      ((splitPower first).1, (splitPower first).2 ++ c :: second) := by
  cases first with
  | nil =>
      -- The mark of a power of ten is a letter, and no break is one.
      have hsmall : (c == 'e') = false := by
        rw [beq_eq_false_iff_ne]
        rintro rfl
        exact absurd hbreak.2.1 (by decide)
      have hlarge : (c == 'E') = false := by
        rw [beq_eq_false_iff_ne]
        rintro rfl
        exact absurd hbreak.2.1 (by decide)
      simp [splitPower, hsmall, hlarge]
  | cons mark rest =>
      simp only [List.cons_append, splitPower, splitSign_append_break hbreak second rest,
        takeWhile_append_cons hbreak.1, dropWhile_append_cons hbreak.1]
      split <;> rfl

theorem splitNumeral_append_break (first : List Char) :
    splitNumeral (first ++ c :: second) =
      ((splitNumeral first).1, (splitNumeral first).2 ++ c :: second) := by
  simp only [splitNumeral, takeWhile_append_cons hbreak.1, dropWhile_append_cons hbreak.1,
    splitPoint_append_break hbreak, splitPower_append_break hbreak]

theorem split_append_break (head : Char) (first : List Char) :
    split head (first ++ c :: second) =
      ((split head first).1, (split head first).2 ++ c :: second) := by
  have hnumeral := splitNumeral_append_break hbreak second (head :: first)
  simp only [List.cons_append] at hnumeral
  simp only [split, startsNumeral_append_break hbreak second, hnumeral,
    takeWhile_append_cons hbreak.2.1, dropWhile_append_cons hbreak.2.1]
  repeat' split
  all_goals rfl

/-- Nothing before a break is split differently for what follows. -/
theorem scan_append_break (first : List Char) :
    scan (first ++ c :: second) = scan first ++ scan (c :: second) := by
  induction first using scan_induction with
  | nil => rfl
  | blank head rest hblank ih =>
      simp only [List.cons_append, scan_cons_of_blank hblank, ih]
  | piece head rest hblank ih =>
      simp only [List.cons_append, scan_cons hblank, split_append_break hbreak second, ih]

end Break

/-! ## Single pieces -/

@[simp] theorem scan_opening (rest : List Char) :
    scan ('(' :: rest) = paren true :: scan rest := by
  rw [scan_cons (by decide)]
  cases rest <;> rfl

@[simp] theorem scan_closing (rest : List Char) :
    scan (')' :: rest) = paren false :: scan rest := by
  rw [scan_cons (by decide)]
  cases rest <;> rfl

theorem split_sign (sign : Formula.OperatorSign) (rest : List Char) :
    split sign.char rest = (operator sign.char, rest) := by
  cases sign <;> cases rest <;> rfl

@[simp] theorem scan_sign (sign : Formula.OperatorSign) (rest : List Char) :
    scan (sign.char :: rest) = operator sign.char :: scan rest := by
  rw [scan_cons (by cases sign <;> decide), split_sign]

/-- The name of a function in front of a parenthesis is one word. -/
@[simp] theorem scan_name (function : UnaryFunction) (rest : List Char) :
    scan (function.name.toList ++ '(' :: rest) =
      word function.name.toList :: paren true :: scan rest := by
  rw [scan_append_break isBreak_opening, scan_opening]
  have hname : scan function.name.toList = [word function.name.toList] := by
    cases function <;> decide +kernel
  rw [hname]
  rfl

/-- Only operator signs become pieces that are operators. -/
theorem mem_operatorSigns_of_mem_scan {symbol : Char} {cs : List Char}
    (hmem : operator symbol ∈ scan cs) : symbol ∈ operatorSigns := by
  induction cs using scan_induction with
  | nil => simp at hmem
  | blank c rest hblank ih => exact ih (by rwa [scan_cons_of_blank hblank] at hmem)
  | piece c rest hblank ih =>
      rw [scan_cons hblank, List.mem_cons] at hmem
      rcases hmem with hhead | htail
      · unfold split at hhead
        repeat' split at hhead
        all_goals simp_all
      · exact ih htail

end SciCalc.Lexeme
