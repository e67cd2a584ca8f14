import SciCalc.Proofs.Decimal.ReadingBack
import SciCalc.Proofs.Decimal.Written

/-! # Printed doubles

The text of a finite double is a written number that is read as the same double.
-/

namespace SciCalc

namespace Decimal

theorem isDigit_of_mem_digitChars {d : Decimal} {c : Char} (hmem : c ∈ d.digitChars) :
    c.isDigit = true :=
  Nat.isDigit_of_mem_toDigits (by decide) (by decide) hmem

theorem digitChars_ne_nil (d : Decimal) : d.digitChars ≠ [] := Nat.toDigits_ne_nil

theorem digitsValue_digitChars (d : Decimal) : Numeral.digitsValue d.digitChars = d.digits :=
  Nat.ofDigitChars_ten_toDigits

/-- Zeros in front of digits are worth nothing. -/
theorem digitsValue_zeros_append (count : Nat) (digits : List Char) :
    Numeral.digitsValue (List.replicate count '0' ++ digits) = Numeral.digitsValue digits := by
  simp [Numeral.digitsValue, Nat.ofDigitChars_append]

theorem digitsValue_append_zeros (digits : List Char) (count : Nat) :
    Numeral.digitsValue (digits ++ List.replicate count '0') =
      Numeral.digitsValue digits * 10 ^ count := by
  simp [Numeral.digitsValue, Nat.ofDigitChars_append, Nat.mul_comm]

theorem isDigit_of_mem_zeros {count : Nat} {c : Char} (hmem : c ∈ List.replicate count '0') :
    c.isDigit = true := by
  rw [List.eq_of_mem_replicate hmem]
  decide

/-- The power of ten of a scientific text, with at least two digits. -/
def writtenExponent (exponent : Int) : WrittenPower where
  negative := exponent < 0
  digits :=
    List.replicate (2 - (Nat.toDigits 10 exponent.natAbs).length) '0' ++
      Nat.toDigits 10 exponent.natAbs
  digits_ne_nil := by simp [Nat.toDigits_ne_nil]
  isDigit_of_mem c hmem := by
    rcases List.mem_append.mp hmem with hzero | hdigit
    · exact isDigit_of_mem_zeros hzero
    · exact Nat.isDigit_of_mem_toDigits (by decide) (by decide) hdigit

theorem exponentChars_eq (exponent : Int) :
    exponentChars 2 exponent = (writtenExponent exponent).chars := by
  simp [exponentChars, WrittenPower.chars, WrittenPower.signChar, writtenExponent]

theorem value_writtenExponent (exponent : Int) : (writtenExponent exponent).value = exponent := by
  have hdigits : Numeral.digitsValue (writtenExponent exponent).digits = exponent.natAbs := by
    rw [writtenExponent, digitsValue_zeros_append]
    exact Nat.ofDigitChars_ten_toDigits
  rw [WrittenPower.value, hdigits]
  by_cases hnegative : exponent < 0
  · simp only [writtenExponent, hnegative, decide_true, if_true]
    omega
  · simp only [writtenExponent, hnegative, decide_false, Bool.false_eq_true, if_false]
    omega

/-- Digits in front of a power of ten are written with a point behind the first of them. -/
theorem exists_written_mantissa {digits : List Char} (hne : digits ≠ [])
    (hdigit : ∀ c ∈ digits, c.isDigit = true) (exponent : Int) :
    ∃ written : Written, mantissaChars digits ++ exponentChars 2 exponent = written.chars ∧
      written.whole = digits.take 1 ∧ written.power = some (writtenExponent exponent) ∧
      ∀ negative, written.decimal negative =
        ⟨negative, Numeral.digitsValue digits, exponent + 1 - digits.length⟩ := by
  obtain ⟨first, rest, rfl⟩ := List.exists_cons_of_ne_nil hne
  refine ⟨⟨[first], rest, some (writtenExponent exponent), by simp,
    fun c hmem => hdigit c (by simp_all), fun c hmem => hdigit c (by simp_all)⟩, ?_, rfl, rfl, ?_⟩
  · rw [exponentChars_eq]
    cases rest <;> rfl
  · intro negative
    simp only [Written.decimal, Written.powerValue, value_writtenExponent, List.singleton_append,
      List.length_cons, Decimal.mk.injEq, true_and]
    omega

/-- A scientific text spells out the decimal itself. -/
theorem exists_written_scientific (d : Decimal) :
    ∃ written : Written, d.scientificChars = d.signChars ++ written.chars ∧
      written.whole = d.digitChars.take 1 ∧
      written.power = some (writtenExponent d.leadingExponent) ∧
      written.decimal d.negative = d := by
  obtain ⟨written, hchars, hwhole, hpower, hdecimal⟩ := exists_written_mantissa d.digitChars_ne_nil
    (fun _ => isDigit_of_mem_digitChars) d.leadingExponent
  refine ⟨written, ?_, hwhole, hpower, ?_⟩
  · rw [scientificChars, List.append_assoc, hchars]
  · rw [hdecimal, digitsValue_digitChars]
    obtain ⟨negative, digits, exponent⟩ := d
    simp only [leadingExponent, Decimal.mk.injEq, true_and]
    omega

/-- A number without a fraction is written with digits only, or with zeros behind a point. -/
theorem exists_written_whole (d : Decimal) (hexponent : 0 ≤ d.exponent) (count : ℕ) :
    ∃ written : Written,
      d.plainChars ++ (if count = 0 then [] else '.' :: List.replicate count '0') =
        d.signChars ++ written.chars ∧
      written.whole = d.digitChars ++ List.replicate d.exponent.toNat '0' ∧
      written.fraction = List.replicate count '0' ∧ written.power = none := by
  refine ⟨⟨d.digitChars ++ List.replicate d.exponent.toNat '0', List.replicate count '0', none,
    by simp [d.digitChars_ne_nil], ?_, fun c => isDigit_of_mem_zeros⟩, ?_, rfl, rfl, rfl⟩
  · intro c hmem
    rcases List.mem_append.mp hmem with hdigit | hzero
    · exact isDigit_of_mem_digitChars hdigit
    · exact isDigit_of_mem_zeros hzero
  · cases count <;>
      simp [plainChars, hexponent, Written.chars, Written.pointChars, Written.powerChars]

/-- The digits of a decimal without its fraction, and zeros behind a point, stand for it. -/
theorem digitsValue_whole (d : Decimal) (places count : ℕ) :
    Numeral.digitsValue
        (d.digitChars ++ List.replicate places '0' ++ List.replicate count '0') =
      d.digits * 10 ^ (places + count) := by
  rw [digitsValue_append_zeros, digitsValue_append_zeros, digitsValue_digitChars, Nat.mul_assoc,
    Nat.pow_add]

/-- A plain text with a point spells out the decimal itself. -/
theorem exists_written_plain (d : Decimal) (hexponent : d.exponent < 0) :
    ∃ written : Written, d.plainChars = d.signChars ++ written.chars ∧ written.power = none ∧
      (written.whole = ['0'] ∨ ∃ k, 0 < k ∧ written.whole = d.digitChars.take k ∧
        written.fraction = d.digitChars.drop k) ∧
      written.decimal d.negative = d := by
  have hdigit : ∀ c ∈ d.digitChars, c.isDigit = true := fun c => isDigit_of_mem_digitChars
  have hvalue := d.digitsValue_digitChars
  have hpoint : d.leadingExponent + 1 = d.exponent + d.digitChars.length := by
    rw [leadingExponent]
    omega
  simp only [plainChars, not_le.mpr hexponent, if_false, hpoint]
  by_cases hsmall : d.exponent + d.digitChars.length ≤ 0
  · -- All digits stand behind the point, after zeros that fill the places between.
    obtain ⟨k, hk⟩ := Int.eq_ofNat_of_zero_le (a := -(d.exponent + d.digitChars.length)) (by omega)
    refine ⟨⟨['0'], List.replicate k '0' ++ d.digitChars, none, by simp, by simp, ?_⟩, ?_, rfl,
      .inl rfl, ?_⟩
    · intro c hmem
      rcases List.mem_append.mp hmem with hzero | hmem
      · exact isDigit_of_mem_zeros hzero
      · exact hdigit c hmem
    · simp [hsmall, hk, Written.chars, Written.pointChars, Written.powerChars, d.digitChars_ne_nil]
    · obtain ⟨negative, digits, exponent⟩ := d
      have hzeros := digitsValue_zeros_append (k + 1) (digitChars ⟨negative, digits, exponent⟩)
      rw [List.replicate_succ, List.cons_append] at hzeros
      simp only [Written.decimal, Written.powerValue, List.singleton_append, hzeros, hvalue,
        List.length_append, List.length_replicate, Decimal.mk.injEq, true_and]
      simp only at hk
      omega
  · -- The point stands between two digits.
    obtain ⟨k, hk⟩ := Int.eq_ofNat_of_zero_le (a := d.exponent + d.digitChars.length) (by omega)
    have hpositive : k ≠ 0 := by omega
    have hshort : k < d.digitChars.length := by omega
    have hdrop : d.digitChars.drop k ≠ [] := by simp [hshort]
    refine ⟨⟨d.digitChars.take k, d.digitChars.drop k, none, ?_,
      fun c hmem => hdigit c (List.mem_of_mem_take hmem),
      fun c hmem => hdigit c (List.mem_of_mem_drop hmem)⟩, ?_, rfl,
      .inr ⟨k, Nat.pos_of_ne_zero hpositive, rfl, rfl⟩, ?_⟩
    · simp [hpositive, d.digitChars_ne_nil]
    · simp [hpositive, hk, Written.chars, Written.pointChars, Written.powerChars, hdrop]
    · obtain ⟨negative, digits, exponent⟩ := d
      simp only [Written.decimal, Written.powerValue, List.take_append_drop, hvalue,
        List.length_drop, Decimal.mk.injEq, true_and]
      simp only at hk hshort
      omega

end Decimal

namespace Double

/-- A text with a digit after the point stands for the same number. -/
theorem exists_written_pointed (d : Decimal) :
    ∃ written : Written, pointedChars d = d.signChars ++ written.chars ∧
      (written.decimal d.negative).toDouble = d.toDouble ∧ written.fraction ≠ [] := by
  unfold pointedChars
  split
  next hexponent =>
    obtain ⟨written, hchars, hwhole, hfraction, hpower⟩ := d.exists_written_whole hexponent 1
    refine ⟨written, hchars, ?_, by simp [hfraction]⟩
    obtain ⟨negative, digits, exponent⟩ := d
    obtain ⟨k, rfl⟩ := Int.eq_ofNat_of_zero_le hexponent
    rw [Written.decimal, Written.powerValue, hpower, hwhole, hfraction, Decimal.digitsValue_whole,
      Int.toNat_natCast, Decimal.toDouble_mul_ten_pow]
    congr 2
    simp only [List.length_replicate]
    omega
  next hexponent =>
    obtain ⟨written, hchars, hpower, -, hdecimal⟩ := d.exists_written_plain (not_le.mp hexponent)
    refine ⟨written, hchars, by rw [hdecimal], fun hnone => hexponent ?_⟩
    rw [← hdecimal, Written.decimal, Written.powerValue, hpower, hnone]
    simp

theorem negative_shortest {x : Double} (hfinite : x.isFinite = true) :
    x.shortest.negative = x.isNegative := by
  cases x with
  | nan | inf => simp [isFinite] at hfinite
  | finite negative mantissa exponent canonical =>
      rw [shortest]
      split <;> rfl

theorem toText_of_isFinite {x : Double} (hfinite : x.isFinite = true) :
    x.toText = String.ofList
      (if -4 ≤ x.shortest.leadingExponent && x.shortest.leadingExponent < 16 then
        pointedChars x.shortest else x.shortest.scientificChars) := by
  cases x with
  | nan | inf => simp [isFinite] at hfinite
  | finite negative mantissa exponent canonical => rfl

/-- The text of a finite double is a written number with the sign of the double, and has a fraction or
a power of ten. -/
theorem exists_written {x : Double} (hfinite : x.isFinite = true) :
    ∃ written : Written,
      x.toText = String.ofList ((if x.isNegative then ['-'] else []) ++ written.chars) ∧
        (written.decimal x.isNegative).toDouble = x ∧
          (written.fraction ≠ [] ∨ written.power ≠ none) := by
  have hreads := toDouble_shortest hfinite
  rw [toText_of_isFinite hfinite, ← negative_shortest hfinite]
  split
  · obtain ⟨written, hchars, hdouble, hfraction⟩ := exists_written_pointed x.shortest
    exact ⟨written, congrArg String.ofList hchars, hdouble.trans hreads, .inl hfraction⟩
  · obtain ⟨written, hchars, -, hpower, hdecimal⟩ := x.shortest.exists_written_scientific
    exact ⟨written, congrArg String.ofList hchars, by rw [hdecimal, hreads], .inr (by simp [hpower])⟩

/-- The text of a finite double is read as the double, the sign of a zero included. -/
theorem ofText?_toText {x : Double} (hfinite : x.isFinite = true) :
    ofText? x.toText = some x := by
  obtain ⟨written, htext, hreads, -⟩ := exists_written hfinite
  rw [ofText?, htext, Numeral.ofText?_written]
  exact congrArg some hreads

end Double

end SciCalc
