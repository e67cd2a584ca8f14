import SciCalc.Proofs.Decimal.WholeNumbers
import SciCalc.Proofs.Display.Totality
import SciCalc.Proofs.Text.Unbroken

/-! # Displayed numbers are written numbers

The display starts from a written number and takes characters away: digits and zeros at the end of
the fraction, a point that has no digits left behind it, zeros in front of a power of ten. What is
left is a written number with the same sign and the same digits before the point. So the display
text of a finite number is a written number.
-/

namespace SciCalc

namespace Text

/-- Nothing is taken away in front of an element that stays. -/
theorem dropTrailing_append_cons {α : Type} {drops : α → Bool} {x : α} (hstays : drops x = false)
    (xs ys : List α) : dropTrailing drops (xs ++ x :: ys) = xs ++ x :: dropTrailing drops ys := by
  have hreverse : (xs ++ x :: ys).reverse = ys.reverse ++ x :: xs.reverse := by simp
  rw [dropTrailing, hreverse, dropWhile_append_cons hstays]
  simp [dropTrailing]

end Text

open Text

namespace Display

theorem isDigit_of_mem_dropLeadingZeros {digits : List Char}
    (hdigits : ∀ c ∈ digits, c.isDigit = true) : ∀ c ∈ dropLeadingZeros digits, c.isDigit = true :=
  fun c hmem => hdigits c ((dropLeadingZeros_sublist digits).subset hmem)

theorem dropLeadingZeros_ne_nil {digits : List Char} (hne : digits ≠ []) :
    dropLeadingZeros digits ≠ [] := by
  fun_induction dropLeadingZeros digits with
  | case1 next rest ih => exact ih (List.cons_ne_nil next rest)
  | case2 digits => exact hne

theorem isDigit_of_mem_dropTrailing (drops : Char → Bool) {digits : List Char}
    (hdigits : ∀ c ∈ digits, c.isDigit = true) :
    ∀ c ∈ dropTrailing drops digits, c.isDigit = true :=
  fun c hmem => hdigits c ((dropTrailing_sublist drops digits).subset hmem)

end Display

/-! ## What the display keeps of a written number -/

/-- The power of ten without zeros in front of its digits. -/
def WrittenPower.unpadded (power : WrittenPower) : WrittenPower where
  negative := power.negative
  digits := Display.dropLeadingZeros power.digits
  digits_ne_nil := Display.dropLeadingZeros_ne_nil power.digits_ne_nil
  isDigit_of_mem := Display.isDigit_of_mem_dropLeadingZeros power.isDigit_of_mem

namespace Written

variable (written : Written) (negative : Bool)

/-- The number without zeros at the end of its fraction and in front of its power of ten. -/
def tidied : Written :=
  { written with
    fraction := dropTrailing (· == '0') written.fraction
    power := written.power.map WrittenPower.unpadded
    isDigit_of_mem_fraction :=
      Display.isDigit_of_mem_dropTrailing _ written.isDigit_of_mem_fraction }

/-- The number cut off behind the given number of places, without zeros at the end. -/
def cutAt (places : Nat) : Written :=
  { written with
    fraction :=
      let fraction := dropTrailing (· == '0') written.fraction
      if places < fraction.length then dropTrailing (· == '0') (fraction.take places) else fraction
    isDigit_of_mem_fraction := by
      have hdigits := Display.isDigit_of_mem_dropTrailing (· == '0') written.isDigit_of_mem_fraction
      dsimp only
      split
      · exact Display.isDigit_of_mem_dropTrailing _
          fun c hmem => hdigits c (List.mem_of_mem_take hmem)
      · exact hdigits }

/-- The sign, the digits and the point, without the power of ten. -/
def mantissa : List Char :=
  (if negative then ['-'] else []) ++ (written.whole ++ written.pointChars)

theorem mem_mantissa {c : Char} (hmem : c ∈ written.mantissa negative) :
    c = '-' ∨ c = '.' ∨ c.isDigit = true := by
  simp only [mantissa, List.mem_append] at hmem
  rcases hmem with hsign | hwhole | hpoint
  · split at hsign
    · exact .inl (List.mem_singleton.mp hsign)
    · exact absurd hsign List.not_mem_nil
  · exact .inr (.inr (written.isDigit_of_mem_whole c hwhole))
  · unfold pointChars at hpoint
    split at hpoint
    · exact absurd hpoint List.not_mem_nil
    rcases List.mem_cons.mp hpoint with rfl | hfraction
    · exact .inr (.inl rfl)
    · exact .inr (.inr (written.isDigit_of_mem_fraction c hfraction))

theorem ne_mark_of_mem_mantissa : ∀ c ∈ written.mantissa negative, (c != 'e') = true := by
  intro c hmem
  rw [bne_iff_ne]
  rintro rfl
  exact absurd (written.mem_mantissa negative hmem) (by decide)

theorem point_notMem_stem : '.' ∉ (if negative then ['-'] else []) ++ written.whole := by
  intro hmem
  rcases List.mem_append.mp hmem with hsign | hwhole
  · split at hsign <;> simp at hsign
  · exact absurd (written.isDigit_of_mem_whole _ hwhole) (by decide)

theorem signed_chars {power : WrittenPower} (hpower : written.power = some power) :
    (if negative then ['-'] else []) ++ written.chars =
      written.mantissa negative ++ power.chars := by
  simp [chars, powerChars, hpower, mantissa]

theorem signed_chars_of_none (hpower : written.power = none) :
    (if negative then ['-'] else []) ++ written.chars = written.mantissa negative := by
  simp [chars, powerChars, hpower, mantissa]

end Written

namespace Display

variable {front : List Char} (hfront : ∀ c ∈ front, (c != 'e') = true)

include hfront

theorem splitExponent_append (rest : List Char) :
    splitExponent (front ++ 'e' :: rest) = (front, 'e' :: rest) := by
  rw [splitExponent, List.takeWhile_append_of_pos hfront, List.dropWhile_append_of_pos hfront]
  simp

theorem stripMantissaZeros_append (rest : List Char) :
    stripMantissaZeros (front ++ 'e' :: rest) =
      (if front.contains '.' then dropTrailing (· == '0') front else front) ++ 'e' :: rest := by
  simp only [stripMantissaZeros, splitExponent_append hfront, List.isEmpty_cons, Bool.not_false,
    Bool.and_true]
  split <;> rfl

theorem dropDanglingPoint_append (rest : List Char) :
    dropDanglingPoint (front ++ 'e' :: rest) =
      (if front.getLast? == some '.' then front.dropLast else front) ++ 'e' :: rest := by
  simp only [dropDanglingPoint, splitExponent_append hfront]
  split <;> rfl

theorem stripExponentPadding_append (power : WrittenPower) :
    stripExponentPadding (front ++ power.chars) = front ++ power.unpadded.chars := by
  rw [stripExponentPadding, WrittenPower.chars, splitExponent_append hfront]
  rfl

omit hfront

variable (written : Written) (negative : Bool)

/-- A point is taken away if no digits stand behind it. -/
theorem dropLast_of_dangling {stem digits : List Char} (hdigits : ∀ c ∈ digits, c.isDigit = true) :
    (if (stem ++ '.' :: digits).getLast? == some '.' then (stem ++ '.' :: digits).dropLast
      else stem ++ '.' :: digits) = stem ++ if digits.isEmpty then [] else '.' :: digits := by
  rcases digits.eq_nil_or_concat with rfl | ⟨init, last, rfl⟩
  · simp
  · have hlast : last ≠ '.' := by
      rintro rfl
      exact absurd (hdigits '.' (by simp)) (by decide)
    have hend : stem ++ '.' :: init.concat last = (stem ++ '.' :: init) ++ [last] := by simp
    rw [hend, List.getLast?_concat, if_neg (by simpa using hlast), if_neg (by simp), ← hend]

/-- Zeros at the end of the fraction go, and the point with them if nothing is left. -/
theorem dropDanglingPoint_stripMantissaZeros (power : WrittenPower) :
    dropDanglingPoint (stripMantissaZeros (written.mantissa negative ++ power.chars)) =
      written.tidied.mantissa negative ++ power.chars := by
  have hmark := written.ne_mark_of_mem_mantissa negative
  generalize hstem : (if negative then ['-'] else []) ++ written.whole = stem
  have hpoint : '.' ∉ stem := hstem ▸ written.point_notMem_stem negative
  have hmantissa : written.mantissa negative = stem ++ written.pointChars := by
    rw [← hstem, List.append_assoc, Written.mantissa]
  have htidied : written.tidied.mantissa negative = stem ++ written.tidied.pointChars := by
    rw [← hstem, List.append_assoc, Written.mantissa]
    rfl
  cases hfraction : written.fraction with
  | nil =>
      -- Without a point the zeros at the end belong to the whole number and stay.
      have hplain : written.pointChars = [] ∧ written.tidied.pointChars = [] := by
        simp [Written.pointChars, Written.tidied, hfraction, dropTrailing]
      rw [hplain.1, List.append_nil] at hmantissa
      rw [hplain.2, List.append_nil] at htidied
      rw [hmantissa] at hmark ⊢
      rw [htidied, WrittenPower.chars, stripMantissaZeros_append hmark,
        if_neg (by simpa using hpoint), dropDanglingPoint_append hmark, if_neg]
      rw [beq_iff_eq]
      exact fun hlast => hpoint (List.mem_of_getLast? hlast)
  | cons first rest =>
      have hpointed : written.pointChars = '.' :: written.fraction := by
        simp [Written.pointChars, hfraction]
      rw [hpointed] at hmantissa
      rw [hmantissa] at hmark ⊢
      have hkept := isDigit_of_mem_dropTrailing (· == '0') written.isDigit_of_mem_fraction
      have hfront := fun c hmem => hmark c ((dropTrailing_sublist (· == '0') _).subset hmem)
      rw [htidied, WrittenPower.chars, stripMantissaZeros_append hmark, if_pos (by simp),
        dropDanglingPoint_append hfront, dropTrailing_append_cons (by decide),
        dropLast_of_dangling hkept]
      rfl

/-- The clean-ups take zeros away and leave a written number. -/
theorem cleanScientific_written {power : WrittenPower} (hpower : written.power = some power) :
    cleanScientific ((if negative then ['-'] else []) ++ written.chars) =
      (if negative then ['-'] else []) ++ written.tidied.chars := by
  have htidied : written.tidied.power = some power.unpadded := by
    rw [Written.tidied, hpower]
    rfl
  rw [Written.signed_chars _ _ hpower, Written.signed_chars _ _ htidied, cleanScientific,
    dropDanglingPoint_stripMantissaZeros,
    stripExponentPadding_append (written.tidied.ne_mark_of_mem_mantissa negative)]

/-- Rounding for a power of ten gives a written number. -/
theorem exists_written_padded (places : Nat) (x : Double) :
    ∃ (written : Written) (power : WrittenPower), written.power = some power ∧
      paddedScientific places x =
        (Decimal.ofDouble (places + 1) x).signChars ++ written.chars := by
  simp only [paddedScientific]
  split
  · have hzeros : List.replicate (places + 1) '0' ≠ [] := by simp
    obtain ⟨written, hchars, -, hpower, -⟩ := Decimal.exists_written_mantissa hzeros
      (fun c hmem => Decimal.isDigit_of_mem_zeros hmem) 0
    exact ⟨written, _, hpower, by rw [List.append_assoc, hchars]⟩
  · obtain ⟨written, hchars, -, hpower, -⟩ :=
      (Decimal.ofDouble (places + 1) x).exists_written_scientific
    exact ⟨written, _, hpower, hchars⟩

theorem exists_written_scientific {x : Double} (hfinite : x.isFinite = true) :
    ∃ (negative : Bool) (written : Written), scientific x =
      String.ofList ((if negative then ['-'] else []) ++ written.chars) := by
  rw [scientific, if_pos hfinite]
  obtain ⟨written, power, hpower, hpadded⟩ :=
    exists_written_padded (min (Settings.displayDigits - 1) 9) x
  refine ⟨(Decimal.ofDouble (min (Settings.displayDigits - 1) 9 + 1) x).negative,
    written.tidied, ?_⟩
  rw [hpadded]
  exact congrArg String.ofList (cleanScientific_written written _ hpower)

/-- Cutting off keeps the digits before the point, whatever stands behind it. -/
theorem cutFraction_pointed (hpower : written.power = none) :
    cutFraction (String.ofList ((if negative then ['-'] else []) ++
        (written.whole ++ '.' :: written.fraction))) =
      String.ofList ((if negative then ['-'] else []) ++
        (written.cutAt (Settings.displayDigits - written.whole.length)).chars) := by
  have hkeeps : ∀ c ∈ (if negative then ['-'] else []) ++ written.whole, (c != '.') = true := by
    intro c hmem
    rw [bne_iff_ne]
    rintro rfl
    exact written.point_notMem_stem negative hmem
  have hcount : (((if negative then ['-'] else []) ++ written.whole).filter (· != '-')).length =
      written.whole.length := by
    have hwhole : written.whole.filter (· != '-') = written.whole := by
      rw [List.filter_eq_self]
      intro c hmem
      rw [bne_iff_ne]
      rintro rfl
      exact absurd (written.isDigit_of_mem_whole _ hmem) (by decide)
    cases negative <;> simp [hwhole]
  have hhead : ∀ c ∈ ('.' :: written.fraction).head?, (c != '.') = false := by simp
  rw [(written.cutAt _).signed_chars_of_none negative hpower, Written.mantissa, ← List.append_assoc,
    ← List.append_assoc, cutFraction, String.toList_ofList, if_pos (by simp)]
  simp only [List.takeWhile_append_of_pos hkeeps, List.dropWhile_append_of_pos hkeeps,
    takeWhile_of_head hhead, dropWhile_of_head hhead, List.append_nil, List.tail_cons, hcount]
  change String.ofList (if (written.cutAt _).fraction.isEmpty = true then _
    else _ ++ '.' :: (written.cutAt _).fraction) = _
  rw [Written.pointChars]
  split
  · rw [List.append_nil]
    rfl
  · rfl

theorem cutFraction_written (hpower : written.power = none) :
    cutFraction (String.ofList ((if negative then ['-'] else []) ++ written.chars)) =
      String.ofList ((if negative then ['-'] else []) ++
        (written.cutAt (Settings.displayDigits - written.whole.length)).chars) := by
  cases hfraction : written.fraction with
  | nil =>
      have hplain : ∀ places, written.pointChars = [] ∧ (written.cutAt places).pointChars = [] := by
        simp [Written.pointChars, Written.cutAt, hfraction, dropTrailing]
      obtain ⟨hnone, hcut⟩ := hplain (Settings.displayDigits - written.whole.length)
      rw [written.signed_chars_of_none negative hpower,
        (written.cutAt _).signed_chars_of_none negative hpower, Written.mantissa, Written.mantissa,
        hnone, hcut, List.append_nil, cutFraction, String.toList_ofList, if_neg]
      · exact congrArg String.ofList (congrArg _ (List.append_nil _).symm)
      · simpa using written.point_notMem_stem negative
  | cons first rest =>
      have hpointed : written.chars = written.whole ++ '.' :: written.fraction := by
        simp [Written.chars, Written.pointChars, Written.powerChars, hpower, hfraction]
      rw [hpointed, cutFraction_pointed written negative hpower]

/-- An integer or a finite double without a power of ten is a written number without one. -/
theorem exists_written_plainText {number : Number}
    (hfinite : ∀ y, number = .float y → y.isFinite = true) :
    ∃ (negative : Bool) (written : Written), written.power = none ∧ plainText number =
      String.ofList ((if negative then ['-'] else []) ++ written.chars) := by
  cases number with
  | int n =>
      refine ⟨decide (n < 0), ⟨Nat.toDigits 10 n.natAbs, [], none, Nat.toDigits_ne_nil,
        fun c => Nat.isDigit_of_mem_toDigits (by decide) (by decide), by simp⟩, rfl, ?_⟩
      rw [plainText, ← String.ofList_toList (s := toString n), toList_toString_int]
      simp [Written.chars, Written.pointChars, Written.powerChars]
  | float y =>
      simp only [plainText]
      split
      · rcases lt_or_ge y.shortest.exponent 0 with hfraction | hwhole
        · obtain ⟨written, hchars, hpower, -, -⟩ := y.shortest.exists_written_plain hfraction
          exact ⟨y.shortest.negative, written, hpower, congrArg String.ofList hchars⟩
        · obtain ⟨written, hchars, -, -, hpower⟩ := y.shortest.exists_written_whole hwhole 0
          rw [if_pos rfl, List.append_nil] at hchars
          exact ⟨y.shortest.negative, written, hpower, congrArg String.ofList hchars⟩
      next hmark =>
        obtain ⟨written, htext, -⟩ := Double.exists_written (hfinite y rfl)
        refine ⟨y.isNegative, written, ?_, htext⟩
        cases hpower : written.power with
        | none => rfl
        | some power =>
            refine absurd ?_ hmark
            rw [htext, String.toList_ofList, Written.signed_chars _ _ hpower]
            simp [WrittenPower.chars]

/-- The display text of a finite number is a written number. -/
theorem exists_written_formatDouble {x : Double} (hfinite : x.isFinite = true) {text : String}
    (htext : formatDouble x = .ok text) :
    ∃ (negative : Bool) (written : Written),
      text = String.ofList ((if negative then ['-'] else []) ++ written.chars) := by
  have hnumber : x.isNan = false ∧ x.isInfinite = false := by
    cases x with
    | nan | inf negative => exact absurd hfinite Bool.false_ne_true
    | finite negative mantissa exponent canonical => exact ⟨rfl, rfl⟩
  simp only [formatDouble, format, Number.toDouble?, hnumber.1, hnumber.2, Bool.false_eq_true,
    if_false] at htext
  split at htext
  · obtain rfl := Except.ok.inj htext
    exact ⟨false, ⟨['0'], [], none, by simp, by simp, by simp⟩, rfl⟩
  next hzero =>
  split at htext
  · obtain rfl := Except.ok.inj htext
    exact exists_written_scientific hfinite
  next hplain =>
    simp only [Bool.or_eq_true, not_or, Bool.not_eq_true] at hplain
    obtain ⟨⟨hlarge, -⟩, hsmall⟩ := hplain
    obtain ⟨rounded, hrounded, rfl⟩ := map_eq_ok_iff.mp htext
    obtain ⟨number, hnumber, hrange⟩ :=
      exists_roundDouble (isPlain_of_thresholds hfinite hlarge hsmall)
    simp only [roundToPrecision, Number.toDouble?, hzero, Bool.false_eq_true, if_false] at hrounded
    obtain rfl : number = rounded := Except.ok.inj (hnumber.symm.trans hrounded)
    obtain ⟨negative, written, hpower, hwritten⟩ := exists_written_plainText hrange
    refine ⟨negative, written.cutAt (Settings.displayDigits - written.whole.length), ?_⟩
    rw [hwritten, cutFraction_written written negative hpower]

end Display

end SciCalc
