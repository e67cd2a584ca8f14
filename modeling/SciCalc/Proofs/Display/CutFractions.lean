import SciCalc.Proofs.Display.DigitCount

/-! # Fractions that are cut off

The fraction of a number without a power of ten is cut off where its digits would be more than ten.
This cuts the number toward zero, and leaves nothing to cut off or to take away. The digits before
the point and the sign stay, however many there are.
-/

namespace SciCalc

open Numeral Text

namespace Written

variable (written : Written)

/-- What has been cut off at a place has nothing behind it. -/
theorem cutAt_cutAt (places : ℕ) : (written.cutAt places).cutAt places = written.cutAt places := by
  have hshort := written.length_fraction_cutAt_le places
  have htidy : dropTrailing (· == '0') (written.cutAt places).fraction =
      (written.cutAt places).fraction := by
    dsimp only [cutAt]
    split <;> exact dropTrailing_idem _ _
  refine ext_of_eq rfl ?_ rfl
  change (if places < (dropTrailing _ (written.cutAt places).fraction).length then _
    else dropTrailing _ (written.cutAt places).fraction) = _
  rw [htidy, if_neg (not_lt.mpr hshort)]

theorem toRat_decimal_cutAt (hpower : written.power = none) (negative : Bool) (places : ℕ) :
    ((written.cutAt places).decimal negative).toRat =
      truncated places (written.decimal negative).toRat := by
  rw [toRat_decimal, toRat_decimal, size_cutAt _ hpower]
  cases negative with
  | false => rfl
  | true => exact (truncated_neg places written.size).symm

end Written

namespace Display

/-- The digits before the point of a text, and a point and digits behind it if there are any. -/
def plainChars (negative : Bool) (whole fraction : List Char) : List Char :=
  (if negative then ['-'] else []) ++
    (whole ++ if fraction.isEmpty then [] else '.' :: fraction)

/-- A text with a point is cut toward zero to the decimals that ten digits leave room for. The sign
and the digits before the point stay; no zero is left at the end of a fraction, no point without
digits behind it, and no more than ten digits unless they stand before the point. Nothing is left to
cut. -/
theorem cutFraction_cuts_toward_zero (negative : Bool) {whole fraction : List Char}
    (hne : whole ≠ []) (hwhole : ∀ c ∈ whole, c.isDigit = true)
    (hfraction : ∀ c ∈ fraction, c.isDigit = true) :
    ∃ (kept : List Char) (before after : Decimal),
      cutFraction (String.ofList ((if negative then ['-'] else []) ++ (whole ++ '.' :: fraction))) =
        String.ofList (plainChars negative whole kept) ∧
      Numeral.ofText?
          (String.ofList ((if negative then ['-'] else []) ++ (whole ++ '.' :: fraction))) =
        some (.decimal before) ∧
      Numeral.ofText? (String.ofList (plainChars negative whole kept)) = some (.decimal after) ∧
      after.toRat = truncated (10 - whole.length) before.toRat ∧
      (∀ c ∈ kept, c.isDigit = true) ∧ kept.getLast? ≠ some '0' ∧
      digitCount (String.ofList (plainChars negative whole kept)) ≤ max 10 whole.length ∧
      cutFraction (String.ofList (plainChars negative whole kept)) =
        String.ofList (plainChars negative whole kept) := by
  let written : Written := ⟨whole, fraction, none, hne, hwhole, hfraction⟩
  let spelled : Spelled := ⟨whole, some fraction, none, hwhole,
    fun digits hdigits => Option.some.inj hdigits ▸ hfraction, .inl hne⟩
  let places := 10 - whole.length
  have hpower : written.power = none := rfl
  have hpower' : (written.cutAt places).power = none := rfl
  have hplain : plainChars negative whole (written.cutAt places).fraction =
      (if negative then ['-'] else []) ++ (written.cutAt places).chars := by
    rw [plainChars, Written.chars, Written.powerChars, hpower', List.append_nil]
    rfl
  have hcut : cutFraction
        (String.ofList ((if negative then ['-'] else []) ++ (written.cutAt places).chars)) =
      String.ofList
        ((if negative then ['-'] else []) ++ ((written.cutAt places).cutAt places).chars) :=
    cutFraction_written (written.cutAt places) negative hpower'
  refine ⟨(written.cutAt places).fraction, written.decimal negative,
    (written.cutAt places).decimal negative, ?_, ?_, ?_,
    written.toRat_decimal_cutAt hpower negative places,
    (written.cutAt places).isDigit_of_mem_fraction, ?_, ?_, ?_⟩
  · rw [hplain]
    exact cutFraction_pointed written negative hpower
  · have hchars : spelled.chars = whole ++ '.' :: fraction :=
      congrArg (whole ++ ·) (List.append_nil _)
    rw [← hchars]
    exact spelled.ofText?_eq negative
  · rw [hplain, Numeral.ofText?_written]
  · exact written.getLast?_fraction_cutAt places
  · rw [hplain, digitCount_signed hpower']
    have hshort := written.length_fraction_cutAt_le places
    change whole.length + (written.cutAt places).fraction.length ≤ _
    omega
  · rw [hplain, hcut, Written.cutAt_cutAt]

theorem cutFraction_cuts_toward_zero_of_thirteen_digits :
    ∃ before after : Decimal, Numeral.ofText? "-1234567.899900" = some (.decimal before) ∧
      Numeral.ofText? (cutFraction "-1234567.899900") = some (.decimal after) ∧
      after.toRat = truncated 3 before.toRat ∧ digitCount (cutFraction "-1234567.899900") ≤ 10 := by
  obtain ⟨kept, before, after, hcut, hbefore, hafter, hvalue, -, -, hcount, -⟩ :=
    cutFraction_cuts_toward_zero true (show "1234567".toList ≠ [] by decide)
      (List.all_eq_true.mp (by decide))
      (show ∀ c ∈ "899900".toList, c.isDigit = true from List.all_eq_true.mp (by decide))
  rw [← hcut] at hafter hcount
  exact ⟨before, after, hbefore, hafter, hvalue, hcount⟩

end Display

end SciCalc
