import SciCalc.Proofs.Display.Written

/-! # Beginnings of numbers

A number is typed digit by digit, or it is displayed at once and its last characters are taken away
again. Either way the text begins a number. Such a text can itself be read, but for three kinds: it
has no digit yet, it breaks off in front of the first digit of a power of ten, or it breaks off
within the word for infinity.
-/

namespace SciCalc

/-- The texts of numbers without their sign: numbers spelled out, and the word for infinity. -/
inductive IsUnsigned : List Char → Prop where
  | spelled (spelled : Spelled) : IsUnsigned spelled.chars
  | infinity : IsUnsigned "Infinity".toList

/-- The text begins a number, which may have a minus. -/
def BeginsNumber (text : String) : Prop :=
  ∃ (negative : Bool) (begun number : List Char),
    text = String.ofList ((if negative then ['-'] else []) ++ begun) ∧
      begun <+: number ∧ IsUnsigned number

/-- The word for infinity where it breaks off and is none of the words that can be read. -/
def brokenWords : List String := ["I", "In", "Infi", "Infin", "Infini", "Infinit"]

/-- The beginnings of numbers without their sign that have something to read and cannot be read: a
power of ten without a digit, and a broken word. -/
inductive IsBrokenOff : List Char → Prop where
  | power (spelled : Spelled) (mark : Char) (sign : List Char) (hpower : spelled.power = none)
      (hmark : mark = 'e' ∨ mark = 'E') (hsign : sign = [] ∨ sign = ['+'] ∨ sign = ['-']) :
      IsBrokenOff (spelled.chars ++ mark :: sign)
  | word {word : String} (hword : word ∈ brokenWords) : IsBrokenOff word.toList

/-! ## Cutting off -/

/-- A prefix of two lists in a row ends in the first of them or in the second. -/
theorem prefix_append_cases {α : Type} {start first second : List α}
    (hstart : start <+: first ++ second) :
    start <+: first ∨ ∃ rest, start = first ++ rest ∧ rest <+: second := by
  obtain ⟨behind, hbehind⟩ := hstart
  rcases List.append_eq_append_iff.mp hbehind with ⟨rest, hfirst, -⟩ | ⟨rest, hlong, hsecond⟩
  · exact .inl ⟨rest, hfirst.symm⟩
  · exact .inr ⟨rest, hlong, behind, hsecond.symm⟩

/-- The point and the digits behind it, if there is a point. -/
def pointed : Option (List Char) → List Char
  | none => []
  | some digits => '.' :: digits

/-- Digits with a point are a number spelled out if there is any digit. -/
theorem digits_cases {whole : List Char} (fraction : Option (List Char))
    (hwhole : ∀ c ∈ whole, c.isDigit = true)
    (hfraction : ∀ digits ∈ fraction, ∀ c ∈ digits, c.isDigit = true) :
    whole ++ pointed fraction = [] ∨ whole ++ pointed fraction = ['.'] ∨
      ∃ spelled : Spelled, spelled.power = none ∧ whole ++ pointed fraction = spelled.chars := by
  by_cases hdigit : whole ≠ [] ∨ fraction.getD [] ≠ []
  · refine .inr (.inr ⟨⟨whole, fraction, none, hwhole, hfraction, hdigit⟩, rfl, ?_⟩)
    cases fraction <;> simp [Spelled.chars, Spelled.pointChars, Spelled.powerChars, pointed]
  · simp only [not_or, not_not] at hdigit
    obtain ⟨rfl, hnone⟩ := hdigit
    cases fraction with
    | none => exact .inl rfl
    | some digits =>
        obtain rfl : digits = [] := hnone
        exact .inr (.inl rfl)

/-- A text of digits and a point begins a number: with a further digit it is one. -/
theorem beginsNumber_of_digits (negative : Bool) {whole : List Char}
    (fraction : Option (List Char)) (hwhole : ∀ c ∈ whole, c.isDigit = true)
    (hfraction : ∀ digits ∈ fraction, ∀ c ∈ digits, c.isDigit = true) :
    BeginsNumber
      (String.ofList ((if negative then ['-'] else []) ++ (whole ++ pointed fraction))) := by
  have hzero : ∀ digits : List Char, (∀ c ∈ digits, c.isDigit = true) →
      ∀ c ∈ digits ++ ['0'], c.isDigit = true := by
    intro digits hdigits
    exact List.forall_mem_append.mpr ⟨hdigits, by simp⟩
  cases fraction with
  | none =>
      refine ⟨negative, _, _, rfl, ?_, .spelled ⟨whole ++ ['0'], none, none, hzero whole hwhole,
        by simp, .inl (by simp)⟩⟩
      simp [pointed, Spelled.chars, Spelled.pointChars, Spelled.powerChars]
  | some digits =>
      refine ⟨negative, _, _, rfl, ?_, .spelled ⟨whole, some (digits ++ ['0']), none, hwhole,
        ?_, .inr (by simp)⟩⟩
      · simp [pointed, Spelled.chars, Spelled.pointChars, Spelled.powerChars]
      · intro further hfurther
        obtain rfl := Option.some.inj hfurther
        exact hzero digits (hfraction digits rfl)

/-- Taking the last character away leaves the beginning of a number. -/
theorem BeginsNumber.dropLast {text : String} (hbegins : BeginsNumber text) :
    BeginsNumber (String.ofList text.toList.dropLast) := by
  obtain ⟨negative, begun, number, rfl, hstart, hnumber⟩ := hbegins
  rw [String.toList_ofList]
  rcases begun.eq_nil_or_concat with rfl | ⟨init, last, rfl⟩
  · refine ⟨false, [], number, ?_, List.nil_prefix, hnumber⟩
    cases negative <;> rfl
  · refine ⟨negative, init, number, ?_, ?_, hnumber⟩
    · rw [List.concat_eq_append, ← List.append_assoc, List.dropLast_concat]
    · exact (List.concat_eq_append ▸ List.prefix_append init [last]).trans hstart

/-- What begins a point with digits is nothing, or a point with digits. -/
theorem exists_pointed_of_start {fraction : Option (List Char)} {start : List Char}
    (hfraction : ∀ digits ∈ fraction, ∀ c ∈ digits, c.isDigit = true)
    (hstart : start <+: pointed fraction) :
    ∃ kept, start = pointed kept ∧ ∀ digits ∈ kept, ∀ c ∈ digits, c.isDigit = true := by
  cases fraction with
  | none => exact ⟨none, List.prefix_nil.mp hstart, nofun⟩
  | some digits =>
      rcases List.prefix_cons_iff.mp hstart with rfl | ⟨kept, rfl, hkept⟩
      · exact ⟨none, rfl, nofun⟩
      · refine ⟨some kept, rfl, ?_⟩
        rintro further hfurther c hmem
        obtain rfl := Option.some.inj hfurther
        exact hfraction digits rfl c (hkept.subset hmem)

/-- What begins a power of ten is nothing, or has no digit, or is a power of ten. -/
theorem power_cases_of_start (power : SpelledPower) {start : List Char}
    (hstart : start <+: power.chars) :
    start = [] ∨
      (∃ sign, (sign = [] ∨ sign = ['+'] ∨ sign = ['-']) ∧ start = power.mark :: sign) ∨
      ∃ shorter : SpelledPower, start = shorter.chars := by
  rcases List.prefix_cons_iff.mp hstart with rfl | ⟨rest, rfl, hrest⟩
  · exact .inl rfl
  refine .inr ?_
  rcases prefix_append_cases hrest with hsign | ⟨digits, rfl, hdigits⟩
  · refine .inl ⟨rest, ?_, rfl⟩
    rcases power.sign_eq with heq | heq | heq <;> rw [heq] at hsign
    · exact .inl (List.prefix_nil.mp hsign)
    all_goals
      rcases List.prefix_cons_iff.mp hsign with rfl | ⟨none, rfl, hnone⟩
      · exact .inl rfl
      · rw [List.prefix_nil.mp hnone]
        simp
  · by_cases hnone : digits = []
    · exact .inl ⟨power.sign, power.sign_eq, by rw [hnone, List.append_nil]⟩
    · exact .inr ⟨{ power with
        digits := digits
        digits_ne_nil := hnone
        isDigit_of_mem := fun c hmem => power.isDigit_of_mem c (hdigits.subset hmem) }, rfl⟩

/-- What begins a number spelled out has no digit, or breaks off in front of a digit of the power of
ten, or is a number itself. -/
theorem begun_cases_of_spelled {spelled : Spelled} {begun : List Char}
    (hstart : begun <+: spelled.chars) :
    begun = [] ∨ begun = ['.'] ∨ IsBrokenOff begun ∨
      ∃ shorter : Spelled, begun = shorter.chars := by
  have hdigits := spelled.isDigit_of_mem_whole
  rcases prefix_append_cases hstart with hwhole | ⟨rest, rfl, hrest⟩
  · have hcases := digits_cases none (fun c hmem => hdigits c (hwhole.subset hmem)) nofun
    rw [pointed, List.append_nil] at hcases
    exact hcases.imp_right (Or.imp_right fun ⟨shorter, _, hshorter⟩ => .inr ⟨shorter, hshorter⟩)
  rcases prefix_append_cases hrest with hpoint | ⟨rest, rfl, hpower⟩
  · obtain ⟨kept, rfl, hkept⟩ := exists_pointed_of_start spelled.isDigit_of_mem_fraction hpoint
    exact (digits_cases kept hdigits hkept).imp_right
      (Or.imp_right fun ⟨shorter, _, hshorter⟩ => .inr ⟨shorter, hshorter⟩)
  -- Without the power of ten the number is one still, as it has a digit.
  obtain ⟨mantissa, hnone, hmantissa⟩ : ∃ mantissa : Spelled, mantissa.power = none ∧
      spelled.whole ++ spelled.pointChars = mantissa.chars := by
    refine ⟨{ spelled with power := none }, rfl, ?_⟩
    rw [Spelled.chars, Spelled.powerChars, List.append_nil]
    rfl
  rw [← List.append_assoc]
  cases hwritten : spelled.power with
  | none =>
      rw [Spelled.powerChars, hwritten, List.prefix_nil] at hpower
      exact .inr (.inr (.inr ⟨mantissa, by rw [hpower, List.append_nil, hmantissa]⟩))
  | some power =>
      rw [Spelled.powerChars, hwritten] at hpower
      rcases power_cases_of_start power hpower with rfl | ⟨sign, hsign, rfl⟩ | ⟨shorter, rfl⟩
      · exact .inr (.inr (.inr ⟨mantissa, by rw [List.append_nil, hmantissa]⟩))
      · rw [hmantissa]
        exact .inr (.inr (.inl (.power mantissa _ sign hnone power.mark_eq hsign)))
      · refine .inr (.inr (.inr ⟨{ spelled with power := some shorter }, ?_⟩))
        rw [List.append_assoc]
        rfl

/-! ## Reading -/

/-- A number that is spelled out can be read. -/
theorem Spelled.exists_double (spelled : Spelled) (negative : Bool) :
    ∃ x, Double.ofText? (String.ofList ((if negative then ['-'] else []) ++ spelled.chars)) =
      some x ∧ x ≠ .nan :=
  ⟨spelled.nearest negative, spelled.doubleOfText?_eq negative, Decimal.toDouble_ne_nan _⟩

/-- The word for infinity can be read, and so can its first three letters. -/
theorem ofText?_infinity (negative : Bool) {word : List Char}
    (hword : word = "Inf".toList ∨ word = "Infinity".toList) :
    Double.ofText? (String.ofList ((if negative then ['-'] else []) ++ word)) =
      some (.inf negative) := by
  rcases hword with rfl | rfl <;> cases negative <;> decide +kernel

/-- What breaks off cannot be read. -/
theorem IsBrokenOff.ofText?_eq_none {begun : List Char} (hbroken : IsBrokenOff begun)
    (negative : Bool) :
    Double.ofText? (String.ofList ((if negative then ['-'] else []) ++ begun)) = none := by
  cases hbroken with
  | power spelled mark sign hpower hmark hsign =>
      have hplain : spelled.chars = spelled.whole ++ spelled.pointChars := by
        rw [Spelled.chars, Spelled.powerChars, hpower, List.append_nil]
      have htail : ∀ c ∈ (mark :: sign).head?, c.isDigit = false ∧ c ≠ '.' := by
        rcases hmark with rfl | rfl <;> simp
      have hnone : Numeral.powerOfTen? (mark :: sign) = none := by
        rcases hmark with rfl | rfl <;> rcases hsign with rfl | rfl | rfl <;> rfl
      have hmarks : ∀ c ∈ mark :: sign, c ∈ 'E' :: numericChars := by
        rcases hmark with rfl | rfl <;> rcases hsign with rfl | rfl | rfl <;> simp [numericChars]
      have hnumeric : ∀ c ∈ (if negative then ['-'] else []) ++ (spelled.chars ++ mark :: sign),
          c ∈ 'E' :: numericChars := by
        rw [← List.append_assoc]
        exact List.forall_mem_append.mpr ⟨spelled.mem_numericChars_of_signed negative, hmarks⟩
      rw [Double.ofText?, Numeral.ofText?_of_numeric hnumeric, hplain, List.append_assoc,
        spelled.ofAscii?_append htail, hnone]
      rfl
  | word hword =>
      have hall : ∀ word ∈ brokenWords, ∀ negative : Bool,
          Numeral.ofText? (String.ofList ((if negative then ['-'] else []) ++ word.toList)) =
            none := by decide +kernel
      rw [Double.ofText?, hall _ hword negative]
      rfl

/-- What begins a number has no digit, or breaks off, or can be read. -/
theorem BeginsNumber.cases {text : String} (hbegins : BeginsNumber text) :
    ∃ (negative : Bool) (begun : List Char),
      text = String.ofList ((if negative then ['-'] else []) ++ begun) ∧
        (begun = [] ∨ begun = ['.'] ∨ IsBrokenOff begun ∨
          ∃ x, Double.ofText? text = some x ∧ x ≠ .nan) := by
  obtain ⟨negative, begun, number, rfl, hstart, hnumber⟩ := hbegins
  refine ⟨negative, begun, rfl, ?_⟩
  cases hnumber with
  | spelled spelled =>
      rcases begun_cases_of_spelled hstart with hnone | hpoint | hbroken | ⟨shorter, rfl⟩
      · exact .inl hnone
      · exact .inr (.inl hpoint)
      · exact .inr (.inr (.inl hbroken))
      · exact .inr (.inr (.inr (shorter.exists_double negative)))
  | infinity =>
      have hall : ∀ start ∈ "Infinity".toList.inits, start = [] ∨
          (∃ word ∈ brokenWords, word.toList = start) ∨
            start = "Inf".toList ∨ start = "Infinity".toList := by decide
      rcases hall begun ((List.mem_inits _ _).mpr hstart) with
        hnone | ⟨word, hword, rfl⟩ | hread
      · exact .inl hnone
      · exact .inr (.inr (.inl (.word hword)))
      · exact .inr (.inr (.inr ⟨_, ofText?_infinity negative hread, nofun⟩))

/-! ## What is typed and what is displayed -/

namespace Display

theorem exists_sign_append (cs : List Char) :
    ∃ negative : Bool, cs = (if negative then ['-'] else []) ++ dropMinus cs := by
  unfold dropMinus
  split
  · exact ⟨true, rfl⟩
  · exact ⟨false, rfl⟩

/-- What can be typed consists of digits with a point, behind an optional minus. -/
theorem exists_digits_of_isPartialInput {text : String} (hpartial : isPartialInput text = true) :
    ∃ (negative : Bool) (whole : List Char) (fraction : Option (List Char)),
      text = String.ofList ((if negative then ['-'] else []) ++ (whole ++ pointed fraction)) ∧
        (∀ c ∈ whole, c.isDigit = true) ∧
          ∀ digits ∈ fraction, ∀ c ∈ digits, c.isDigit = true := by
  obtain ⟨negative, hsign⟩ := exists_sign_append text.toList
  generalize hbody : dropMinus text.toList = body at hsign
  have hsplit : body.takeWhile Char.isDigit ++ body.dropWhile Char.isDigit = body :=
    List.takeWhile_append_dropWhile
  have hwhole : ∀ c ∈ body.takeWhile Char.isDigit, c.isDigit = true :=
    List.all_eq_true.mp List.all_takeWhile
  have htext : text = String.ofList ((if negative then ['-'] else []) ++
      (body.takeWhile Char.isDigit ++ body.dropWhile Char.isDigit)) := by
    rw [hsplit, ← hsign, String.ofList_toList]
  rw [isPartialInput, hbody] at hpartial
  split at hpartial
  next hnone =>
    rw [hnone] at htext
    exact ⟨negative, _, none, htext, hwhole, nofun⟩
  next fraction hpoint =>
    rw [hpoint] at htext
    refine ⟨negative, _, some fraction, htext, hwhole, ?_⟩
    rintro digits hdigits c hmem
    obtain rfl := Option.some.inj hdigits
    exact List.all_eq_true.mp hpartial c hmem
  · exact absurd hpartial Bool.false_ne_true

/-- What can be typed and has a digit is a number spelled out, behind an optional minus. -/
theorem exists_spelled_of_isPartialInput {text : String} (hpartial : isPartialInput text = true)
    (hdigit : text.toList.any Char.isDigit = true) :
    ∃ (negative : Bool) (spelled : Spelled),
      text = String.ofList ((if negative then ['-'] else []) ++ spelled.chars) := by
  obtain ⟨negative, whole, fraction, rfl, hwhole, hfraction⟩ :=
    exists_digits_of_isPartialInput hpartial
  rcases digits_cases fraction hwhole hfraction with hnone | hpoint | ⟨spelled, -, hspelled⟩
  · rw [hnone] at hdigit
    cases negative <;> exact absurd hdigit (by decide)
  · rw [hpoint] at hdigit
    cases negative <;> exact absurd hdigit (by decide)
  · exact ⟨negative, spelled, by rw [hspelled]⟩

/-- What can be typed begins a number. -/
theorem beginsNumber_of_isPartialInput {text : String} (hpartial : isPartialInput text = true) :
    BeginsNumber text := by
  obtain ⟨negative, whole, fraction, rfl, hwhole, hfraction⟩ :=
    exists_digits_of_isPartialInput hpartial
  exact beginsNumber_of_digits negative fraction hwhole hfraction

/-- Digits with a point, behind an optional minus, can be typed. -/
theorem isPartialInput_of_digits (negative : Bool) {whole : List Char}
    (fraction : Option (List Char)) (hwhole : ∀ c ∈ whole, c.isDigit = true)
    (hfraction : ∀ digits ∈ fraction, ∀ c ∈ digits, c.isDigit = true) :
    isPartialInput
      (String.ofList ((if negative then ['-'] else []) ++ (whole ++ pointed fraction))) = true := by
  have hsign : dropMinus ((if negative then ['-'] else []) ++ (whole ++ pointed fraction)) =
      whole ++ pointed fraction := by
    cases negative with
    | true => rfl
    | false =>
        cases whole with
        | nil => cases fraction <;> rfl
        | cons first rest =>
            have hfirst : first ≠ '-' := by
              rintro rfl
              exact absurd (hwhole '-' List.mem_cons_self) (by decide)
            simp [dropMinus, hfirst]
  have hpoint : ∀ c ∈ (pointed fraction).head?, c.isDigit = false := by
    cases fraction <;> simp [pointed]
  rw [isPartialInput, String.toList_ofList, hsign, List.dropWhile_append_of_pos hwhole,
    dropWhile_of_head hpoint]
  cases fraction with
  | none => rfl
  | some digits => exact List.all_eq_true.mpr (hfraction digits rfl)

/-- What begins a text that can be typed can itself be typed. -/
theorem isPartialInput_of_prefix {start text : String} (hstart : start.toList <+: text.toList)
    (hpartial : isPartialInput text = true) : isPartialInput start = true := by
  obtain ⟨negative, whole, fraction, rfl, hwhole, hfraction⟩ :=
    exists_digits_of_isPartialInput hpartial
  rw [String.toList_ofList] at hstart
  rw [← String.ofList_toList (s := start)]
  rcases prefix_append_cases hstart with hsign | ⟨body, hbody, hrest⟩
  · have hall : ∀ sign ∈ ['-'].inits, isPartialInput (String.ofList sign) = true := by decide
    refine hall _ ((List.mem_inits _ _).mpr (hsign.trans ?_))
    cases negative <;> simp
  rw [hbody]
  rcases prefix_append_cases hrest with hdigits | ⟨point, rfl, hpoint⟩
  · have hpart := isPartialInput_of_digits negative none
      (fun c hmem => hwhole c (hdigits.subset hmem)) nofun
    rwa [pointed, List.append_nil] at hpart
  · obtain ⟨kept, rfl, hkept⟩ := exists_pointed_of_start hfraction hpoint
    exact isPartialInput_of_digits negative kept hwhole hkept

/-- What is displayed is the beginning of a number: of all of it. -/
theorem beginsNumber_of_formatDouble {x : Double} (hx : x ≠ .nan) {text : String}
    (htext : formatDouble x = .ok text) : BeginsNumber text := by
  cases x with
  | nan => exact absurd rfl hx
  | inf negative =>
      refine ⟨negative, _, _, ?_, List.prefix_rfl, .infinity⟩
      obtain rfl := Except.ok.inj htext
      cases negative <;> rfl
  | finite negative mantissa exponent canonical =>
      obtain ⟨negative, written, rfl⟩ := exists_written_formatDouble rfl htext
      exact ⟨negative, _, _, rfl, List.prefix_rfl, written.chars_spelled ▸ .spelled written.spelled⟩

/-- What is displayed can be read. -/
theorem exists_ofText?_of_formatDouble {x : Double} (hx : x ≠ .nan) {text : String}
    (htext : formatDouble x = .ok text) : ∃ y, Double.ofText? text = some y := by
  cases x with
  | nan => exact absurd rfl hx
  | inf negative =>
      obtain rfl := Except.ok.inj htext
      cases negative
      · exact ⟨_, ofText?_infinity false (.inr rfl)⟩
      · exact ⟨_, ofText?_infinity true (.inr rfl)⟩
  | finite negative mantissa exponent canonical =>
      obtain ⟨negative, written, rfl⟩ := exists_written_formatDouble rfl htext
      rw [← written.chars_spelled]
      exact ⟨_, written.spelled.doubleOfText?_eq negative⟩

end Display

end SciCalc
