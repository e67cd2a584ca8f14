import SciCalc.Proofs.Display.Values
import SciCalc.Proofs.Text.Pattern

/-! # The clean-ups as replacements

Each of the three clean-ups of a text with a power of ten replaces what a pattern matches: a run of
zeros in front of the power of ten, behind a point and as few digits as possible; a point right in
front of the power of ten; zeros behind the sign of the power of ten, as many as leave a digit. The
patterns find exactly the superfluous characters, so the replacements keep the number, leave nothing
that they would replace again, and are what the display does.
-/

namespace SciCalc.Display

open Numeral Text

/-! ## The patterns -/

def isSign (c : Char) : Bool := c == '+' || c == '-'

/-- A power of ten: the mark, an optional sign, and digits. -/
def powerSteps : List Step :=
  [.one (· == 'e') true, .optional isSign true, .longest Char.isDigit 1 true]

/-- Zeros that stand between a fraction and its power of ten. -/
def mantissaZeros : Pattern where
  steps := .one (· == '.') true :: .shortest Char.isDigit true :: .longest (· == '0') 1 false ::
    powerSteps
  atEnd := true

/-- A point right in front of a power of ten. -/
def danglingPoint : Pattern where
  steps := .one (· == '.') false :: powerSteps
  atEnd := true

/-- Zeros at the start of a power of ten, in front of a digit. -/
def exponentPadding : Pattern where
  steps := [.one (· == 'e') true, .one isSign true, .longest (· == '0') 0 false,
    .one Char.isDigit true]
  atEnd := false

/-- The three replacements in their order. -/
def replaced (cs : List Char) : List Char :=
  exponentPadding.replace (danglingPoint.replace (mantissaZeros.replace cs))

/-! ## What the patterns match -/

theorem ne_of_isDigit {c d : Char} (hc : c.isDigit = true) (hd : d.isDigit = false) : c ≠ d := by
  rintro rfl
  exact Bool.false_ne_true (hd.symm.trans hc)

theorem matchSteps_digits {digits : List Char} (hdigits : ∀ c ∈ digits, c.isDigit = true) :
    matchSteps true [.longest Char.isDigit 0 true] digits = some (digits, []) := by
  induction digits with
  | nil => rfl
  | cons c digits ih =>
      obtain ⟨hc, hdigits⟩ := List.forall_mem_cons.mp hdigits
      rw [matchSteps_longest_cons, if_pos hc, ih hdigits]
      rfl

theorem matchSteps_power_of_ne {c : Char} (hc : c ≠ 'e') (cs : List Char) :
    matchSteps true powerSteps (c :: cs) = none := by
  rw [powerSteps, matchSteps_one_cons, if_neg (by simpa using hc)]

section Power

variable {sign : Char} {digits : List Char} (hsign : isSign sign = true) (hne : digits ≠ [])
  (hdigits : ∀ c ∈ digits, c.isDigit = true)

include hsign hne hdigits

theorem matchSteps_power :
    matchSteps true powerSteps ('e' :: sign :: digits) = some ('e' :: sign :: digits, []) := by
  obtain ⟨c, rest, rfl⟩ := List.exists_cons_of_ne_nil hne
  obtain ⟨hc, hrest⟩ := List.forall_mem_cons.mp hdigits
  rw [powerSteps, matchSteps_one_cons, if_pos BEq.rfl, matchSteps_optional_cons, if_pos hsign,
    matchSteps_some_cons, if_pos hc, matchSteps_digits hrest]
  rfl

/-- Zeros that stand alone in front of the power of ten are taken. -/
theorem matchSteps_zeros (count : ℕ) :
    matchSteps true (.longest (· == '0') 0 false :: powerSteps)
      (List.replicate count '0' ++ 'e' :: sign :: digits) =
        some ('e' :: sign :: digits, []) := by
  induction count with
  | zero =>
      rw [List.replicate_zero, List.nil_append, matchSteps_longest_cons, if_neg (by decide),
        Option.none_or, matchSteps_power hsign hne hdigits]
  | succ count ih =>
      rw [List.replicate_succ, List.cons_append, matchSteps_longest_cons, if_pos BEq.rfl, ih]
      rfl

end Power

/-- Behind zeros that another digit follows, no power of ten is found. -/
theorem matchSteps_zeros_of_digit {run : List Char} (hne : run ≠ [])
    (hdigits : ∀ c ∈ run, c.isDigit = true) (hlast : run.getLast? ≠ some '0') (rest : List Char) :
    matchSteps true (.longest (· == '0') 0 false :: powerSteps) (run ++ rest) = none := by
  induction run with
  | nil => exact absurd rfl hne
  | cons c run ih =>
      obtain ⟨hc, hrun⟩ := List.forall_mem_cons.mp hdigits
      rw [List.cons_append, matchSteps_longest_cons,
        matchSteps_power_of_ne (ne_of_isDigit hc (by decide)), Option.or_none]
      split
      next hzero =>
        have hmore : run ≠ [] := by
          rintro rfl
          exact hlast (congrArg some (beq_iff_eq.mp hzero))
        rw [ih hmore hrun (by rwa [List.getLast?_cons_of_ne_nil hmore] at hlast)]
        rfl
      next => rfl

section Replacements

variable {sign : Char} {digits : List Char} (hsign : isSign sign = true) (hne : digits ≠ [])
  (hdigits : ∀ c ∈ digits, c.isDigit = true)

include hsign hne hdigits

/-- As few digits as possible are taken in front of the zeros, which are all those at the end of the
fraction. -/
theorem matchSteps_fraction {front : List Char} (hfront : ∀ c ∈ front, c.isDigit = true)
    (hlast : front.getLast? ≠ some '0') (count : ℕ) :
    matchSteps true
        (.shortest Char.isDigit true :: .longest (· == '0') 1 false :: powerSteps)
        (front ++ (List.replicate count '0' ++ 'e' :: sign :: digits)) =
      if count = 0 then none else some (front ++ 'e' :: sign :: digits, []) := by
  induction front with
  | nil =>
      cases count with
      | zero =>
          rw [List.replicate_zero, List.nil_append, List.nil_append, matchSteps_shortest_cons,
            matchSteps_some_cons, if_neg (by decide), if_neg (by decide)]
          rfl
      | succ count =>
          rw [List.replicate_succ, List.nil_append, List.cons_append, matchSteps_shortest_cons,
            matchSteps_some_cons, if_pos BEq.rfl, matchSteps_zeros hsign hne hdigits]
          rfl
  | cons c front ih =>
      obtain ⟨hc, hrest⟩ := List.forall_mem_cons.mp hfront
      have hnone := matchSteps_some_eq_none (matchSteps_zeros_of_digit (List.cons_ne_nil c front)
        hfront hlast (List.replicate count '0' ++ 'e' :: sign :: digits))
      have hlast' : front.getLast? ≠ some '0' := by
        rcases eq_or_ne front [] with rfl | hmore
        · exact nofun
        · rwa [List.getLast?_cons_of_ne_nil hmore] at hlast
      rw [List.cons_append] at hnone
      rw [List.cons_append, matchSteps_shortest_cons, hnone, Option.none_or, if_pos hc,
        ih hrest hlast']
      split <;> rfl

/-! ## What is replaced -/

omit hne in
theorem point_notMem_power : '.' ∉ 'e' :: sign :: digits := by
  simp only [List.mem_cons, not_or]
  refine ⟨by decide, ?_, fun hmem => ?_⟩
  · rintro rfl
    exact absurd hsign (by decide)
  · exact absurd (hdigits '.' hmem) (by decide)

theorem replace_mantissaZeros {stem fraction : List Char} (hstem : '.' ∉ stem)
    (hfraction : ∀ c ∈ fraction, c.isDigit = true) :
    mantissaZeros.replace (stem ++ '.' :: (fraction ++ 'e' :: sign :: digits)) =
      stem ++ '.' :: (dropTrailing (· == '0') fraction ++ 'e' :: sign :: digits) := by
  obtain ⟨count, hcount⟩ := exists_eq_dropTrailing_append fraction
  have hkept := isDigit_of_mem_dropTrailing (· == '0') hfraction
  have hlast := getLast?_dropTrailing fraction
  generalize dropTrailing (· == '0') fraction = kept at hcount hkept hlast
  have hmatch : mantissaZeros.match? ('.' :: (fraction ++ 'e' :: sign :: digits)) =
      if count = 0 then none else some ('.' :: (kept ++ 'e' :: sign :: digits), []) := by
    rw [Pattern.match?, mantissaZeros, matchSteps_one_cons, if_pos BEq.rfl, hcount,
      List.append_assoc, matchSteps_fraction hsign hne hdigits hkept hlast]
    split <;> rfl
  rw [Pattern.replace_append rfl hstem]
  split at hmatch
  next hnone =>
    rw [hnone, List.replicate_zero, List.append_nil] at hcount
    have hrest : '.' ∉ fraction ++ 'e' :: sign :: digits := by
      rw [List.mem_append, not_or]
      refine ⟨fun hmem => ?_, point_notMem_power hsign hdigits⟩
      exact absurd (hfraction '.' hmem) (by decide)
    rw [Pattern.replace_of_no_match hmatch, Pattern.replace_of_notMem rfl hrest, hcount]
  next =>
    rw [← List.append_nil (_ ++ _ :: _ :: _)] at hmatch
    have hwhole := Pattern.replace_of_match hmatch
    rw [List.append_nil] at hwhole
    rw [hwhole]
    exact congrArg (stem ++ ·) (List.append_nil _)

theorem replace_danglingPoint {stem fraction : List Char} (hstem : '.' ∉ stem)
    (hfraction : ∀ c ∈ fraction, c.isDigit = true) :
    danglingPoint.replace (stem ++ '.' :: (fraction ++ 'e' :: sign :: digits)) =
      stem ++ ((if fraction.isEmpty then [] else '.' :: fraction) ++ 'e' :: sign :: digits) := by
  have hpower := point_notMem_power hsign hdigits
  rw [Pattern.replace_append rfl hstem]
  cases fraction with
  | nil =>
      have hmatch : danglingPoint.match? ('.' :: ('e' :: sign :: digits) ++ []) =
          some ('e' :: sign :: digits, []) := by
        rw [Pattern.match?, danglingPoint, List.append_nil, matchSteps_one_cons, if_pos BEq.rfl,
          matchSteps_power hsign hne hdigits]
        rfl
      have hwhole := Pattern.replace_of_match hmatch
      rw [List.append_nil] at hwhole
      rw [List.nil_append, hwhole]
      exact congrArg (stem ++ ·) (List.append_nil _)
  | cons c fraction =>
      have hc := hfraction c List.mem_cons_self
      have hnone : danglingPoint.match? ('.' :: (c :: fraction ++ 'e' :: sign :: digits)) =
          none := by
        rw [Pattern.match?, danglingPoint, matchSteps_one_cons, if_pos BEq.rfl, List.cons_append,
          matchSteps_power_of_ne (ne_of_isDigit hc (by decide))]
        rfl
      have hrest : '.' ∉ c :: fraction ++ 'e' :: sign :: digits := by
        rw [List.mem_append, not_or]
        exact ⟨fun hmem => absurd (hfraction '.' hmem) (by decide), hpower⟩
      rw [Pattern.replace_of_no_match hnone, Pattern.replace_of_notMem rfl hrest]
      rfl

omit hsign in
/-- As many zeros are taken as leave a digit behind them. -/
theorem matchSteps_padding :
    ∃ zeros c rest, digits = zeros ++ c :: rest ∧ dropLeadingZeros digits = c :: rest ∧
      matchSteps false [.longest (· == '0') 0 false, .one Char.isDigit true] digits =
        some ([c], rest) := by
  fun_induction dropLeadingZeros digits with
  | case1 next rest ih =>
      obtain ⟨zeros, c, behind, hdigits', hkept, hmatch⟩ :=
        ih (List.cons_ne_nil next rest) fun c hmem => hdigits c (List.mem_cons_of_mem _ hmem)
      refine ⟨'0' :: zeros, c, behind, by rw [hdigits', List.cons_append], hkept, ?_⟩
      rw [matchSteps_longest_cons, if_pos BEq.rfl, hmatch]
      rfl
  | case2 digits hother =>
      obtain ⟨c, rest, rfl⟩ := List.exists_cons_of_ne_nil hne
      have hmatch : matchSteps false [.one Char.isDigit true] (c :: rest) = some ([c], rest) := by
        rw [matchSteps_one_cons, if_pos (hdigits c List.mem_cons_self)]
        rfl
      refine ⟨[], c, rest, rfl, rfl, ?_⟩
      rw [matchSteps_longest_cons, hmatch]
      split
      next hzero =>
        -- The only zero is the digit that must stay.
        obtain rfl : c = '0' := beq_iff_eq.mp hzero
        have hlast : rest = [] := by
          cases rest with
          | nil => rfl
          | cons next rest => exact absurd rfl (hother next rest)
        rw [hlast, matchSteps_longest_nil, matchSteps_one_nil]
        rfl
      next => rfl

theorem replace_exponentPadding {front : List Char} (hfront : 'e' ∉ front) :
    exponentPadding.replace (front ++ 'e' :: sign :: digits) =
      front ++ 'e' :: sign :: dropLeadingZeros digits := by
  obtain ⟨zeros, c, rest, hdigits', hkept, hmatch⟩ := matchSteps_padding hne hdigits
  have hpower : exponentPadding.match? ('e' :: (sign :: (zeros ++ [c])) ++ rest) =
      some (['e', sign, c], rest) := by
    have hrun : 'e' :: (sign :: (zeros ++ [c])) ++ rest = 'e' :: sign :: digits := by
      simp [hdigits']
    rw [hrun, Pattern.match?, exponentPadding, matchSteps_one_cons, if_pos BEq.rfl,
      matchSteps_one_cons, if_pos hsign, hmatch]
    rfl
  have hrest : 'e' ∉ rest := by
    intro hmem
    have hdigit := hdigits 'e' (by rw [hdigits']; simp [hmem])
    exact absurd hdigit (by decide)
  have hreplaced := Pattern.replace_of_match hpower
  rw [Pattern.replace_of_notMem rfl hrest] at hreplaced
  rw [Pattern.replace_append rfl hfront, hkept, hdigits']
  simpa using hreplaced

end Replacements

/-! ## The clean-ups -/

theorem isSign_signChar (power : WrittenPower) : isSign power.signChar = true := by
  rw [WrittenPower.signChar]
  split <;> rfl

section Written

variable (written : Written) (negative : Bool)

theorem replace_fraction (power : WrittenPower) :
    danglingPoint.replace (mantissaZeros.replace (written.mantissa negative ++ power.chars)) =
      written.tidied.mantissa negative ++ power.chars := by
  have hpower := point_notMem_power (isSign_signChar power) power.isDigit_of_mem
  have hstem := written.point_notMem_stem negative
  have htidied := written.tidied.isDigit_of_mem_fraction
  have hmantissa (point : List Char) :
      (if negative then ['-'] else []) ++ (written.whole ++ point) ++ power.chars =
        ((if negative then ['-'] else []) ++ written.whole) ++
          (point ++ 'e' :: power.signChar :: power.digits) := by
    simp [WrittenPower.chars]
  rw [Written.mantissa, Written.mantissa, hmantissa]
  refine Eq.trans ?_ (hmantissa written.tidied.pointChars).symm
  generalize (if negative then ['-'] else []) ++ written.whole = stem at hstem
  cases hfraction : written.fraction with
  | nil =>
      have hplain : written.pointChars = [] ∧ written.tidied.pointChars = [] := by
        simp [Written.pointChars, Written.tidied, hfraction, dropTrailing]
      have hnone : '.' ∉ stem ++ 'e' :: power.signChar :: power.digits := by
        rw [List.mem_append, not_or]
        exact ⟨hstem, hpower⟩
      rw [hplain.1, hplain.2, List.nil_append, Pattern.replace_of_notMem rfl hnone,
        Pattern.replace_of_notMem rfl hnone]
  | cons first rest =>
      have hpointed : written.pointChars = '.' :: written.fraction := by
        simp [Written.pointChars, hfraction]
      rw [hpointed, List.cons_append, replace_mantissaZeros (isSign_signChar power)
        power.digits_ne_nil power.isDigit_of_mem hstem written.isDigit_of_mem_fraction]
      exact replace_danglingPoint (isSign_signChar power) power.digits_ne_nil power.isDigit_of_mem
        hstem htidied

/-- The clean-ups replace what the patterns match. -/
theorem replaced_written {power : WrittenPower} (hpower : written.power = some power) :
    replaced ((if negative then ['-'] else []) ++ written.chars) =
      cleanScientific ((if negative then ['-'] else []) ++ written.chars) := by
  have htidied : written.tidied.power = some power.unpadded := by
    rw [Written.tidied, hpower]
    rfl
  have hmark : 'e' ∉ written.tidied.mantissa negative := fun hmem =>
    absurd (written.tidied.ne_mark_of_mem_mantissa negative 'e' hmem) (by decide)
  rw [cleanScientific_written written negative hpower, Written.signed_chars _ _ hpower,
    Written.signed_chars _ _ htidied, replaced, replace_fraction, WrittenPower.chars,
    replace_exponentPadding (isSign_signChar power) power.digits_ne_nil power.isDigit_of_mem hmark]
  rfl

end Written

/-! ## What is left -/

/-- A text with one digit before the point, a point and digits behind it if there are any, and a
power of ten with its sign. -/
def scientificChars (negative : Bool) (first : Char) (fraction : List Char) (below : Bool)
    (digits : List Char) : List Char :=
  (if negative then ['-'] else []) ++
    first :: ((if fraction.isEmpty then [] else '.' :: fraction) ++
      'e' :: (if below then '-' else '+') :: digits)

/-- The clean-ups of a text with a power of ten are the three replacements. They keep the number and
both signs; no zero is left at the end of the fraction, no point without digits behind it, and no
zero in front of the power of ten unless it is its only digit. The replacements find nothing to
replace in what is left. -/
theorem clean_ups_keep_number (negative below : Bool) {first : Char} {fraction digits : List Char}
    (hfirst : first.isDigit = true) (hfraction : ∀ c ∈ fraction, c.isDigit = true)
    (hne : digits ≠ []) (hdigits : ∀ c ∈ digits, c.isDigit = true) :
    ∃ (fraction' digits' : List Char) (before after : Decimal),
      replaced (scientificChars negative first fraction below digits) =
        scientificChars negative first fraction' below digits' ∧
      cleanScientific (scientificChars negative first fraction below digits) =
        scientificChars negative first fraction' below digits' ∧
      (∀ c ∈ fraction', c.isDigit = true) ∧ fraction'.getLast? ≠ some '0' ∧
      digits' ≠ [] ∧ (∀ c ∈ digits', c.isDigit = true) ∧ Unpadded digits' ∧
      Numeral.ofText? (String.ofList (scientificChars negative first fraction below digits)) =
        some (.decimal before) ∧
      Numeral.ofText? (String.ofList (scientificChars negative first fraction' below digits')) =
        some (.decimal after) ∧
      after.toRat = before.toRat ∧
      replaced (scientificChars negative first fraction' below digits') =
        scientificChars negative first fraction' below digits' := by
  let power : WrittenPower := ⟨below, digits, hne, hdigits⟩
  let written : Written := ⟨[first], fraction, some power, List.cons_ne_nil _ _,
    List.forall_mem_singleton.mpr hfirst, hfraction⟩
  have htext : scientificChars negative first fraction below digits =
      (if negative then ['-'] else []) ++ written.chars := rfl
  have hleft : scientificChars negative first written.tidied.fraction below power.unpadded.digits =
      (if negative then ['-'] else []) ++ written.tidied.chars := rfl
  have hpower : written.power = some power := rfl
  have hpower' : written.tidied.power = some power.unpadded := rfl
  have hcleaned := cleanScientific_written written negative hpower
  have hagain := cleanScientific_written written.tidied negative hpower'
  refine ⟨written.tidied.fraction, power.unpadded.digits, written.decimal negative,
    written.tidied.decimal negative, ?_, ?_, written.tidied.isDigit_of_mem_fraction,
    getLast?_dropTrailing fraction, power.unpadded.digits_ne_nil, power.unpadded.isDigit_of_mem,
    unpadded_dropLeadingZeros digits, ?_, ?_, ?_, ?_⟩
  · rw [htext, hleft, replaced_written written negative hpower, hcleaned]
  · rw [htext, hleft, hcleaned]
  · rw [htext, Numeral.ofText?_written]
  · rw [hleft, Numeral.ofText?_written]
  · rw [Written.toRat_decimal, Written.toRat_decimal, Written.size_tidied]
  · rw [hleft, replaced_written written.tidied negative hpower', hagain, Written.tidied_tidied]

theorem clean_ups_keep_number_with_padding :
    ∃ before after : Decimal, Numeral.ofText? "-1.2300e+0100" = some (.decimal before) ∧
      Numeral.ofText? (String.ofList (replaced "-1.2300e+0100".toList)) = some (.decimal after) ∧
      after.toRat = before.toRat := by
  obtain ⟨fraction', digits', before, after, hreplaced, -, -, -, -, -, -, hbefore, hafter, hsame,
      -⟩ :=
    clean_ups_keep_number true false (show '1'.isDigit = true by decide)
      (show ∀ c ∈ "2300".toList, c.isDigit = true from List.all_eq_true.mp (by decide))
      (show "0100".toList ≠ [] by decide) (List.all_eq_true.mp (by decide))
  refine ⟨before, after, hbefore, ?_, hsame⟩
  rw [← hafter, ← hreplaced]
  rfl

end SciCalc.Display
