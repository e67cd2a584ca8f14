import SciCalc.BigFloat.Decimal
import SciCalc.Proofs.BigFloat.WholeNumbers
import SciCalc.Proofs.Display.Values

/-! # Significant digits of integers

An integer of some thousand bits is cut nowhere: its digits, with zeros behind the point where it has
too few, are rounded once. Whether the layout then writes a power of ten or not, the text has a point
and is read as the integer rounded to the wanted digits.
-/

namespace SciCalc

open Numeral

namespace BigFloat

/-! ## Rounding a row of digits -/

theorem all_zero_iff {digits : List Char} (hdigits : ∀ c ∈ digits, c.isDigit = true) :
    digits.all (· == '0') = true ↔ digitsValue digits = 0 := by
  induction digits with
  | nil => exact iff_of_true rfl rfl
  | cons first rest ih =>
      obtain ⟨hfirst, hrest⟩ := List.forall_mem_cons.mp hdigits
      rw [List.all_cons, Bool.and_eq_true, ih hrest, digitsValue_cons, beq_iff_eq]
      constructor
      · rintro ⟨rfl, hzero⟩
        rw [hzero]
        exact Nat.zero_mul _
      · intro hzero
        obtain ⟨hproduct, hzero⟩ := Nat.add_eq_zero_iff.mp hzero
        refine ⟨by_contra fun hne => ?_, hzero⟩
        exact absurd hproduct (Nat.mul_pos (digitsValue_digit_pos hfirst hne) (by positivity)).ne'

section Half

variable (first : Char) {rest : List Char} (hrest : ∀ c ∈ rest, c.isDigit = true)

include hrest

/-- The first digit of a fraction tells whether it is less than one half. -/
theorem lt_half_iff :
    2 * digitsValue (first :: rest) < 10 ^ (rest.length + 1) ↔ first.toNat < '5'.toNat := by
  have hbelow := digitsValue_lt hrest
  have hfive : '5'.toNat = '0'.toNat + 5 := rfl
  rw [digitsValue_cons, digitsValue_singleton, Nat.pow_succ']
  constructor
  · intro hless
    by_contra hnot
    have hmany : 5 * 10 ^ rest.length ≤ (first.toNat - '0'.toNat) * 10 ^ rest.length :=
      Nat.mul_le_mul_right _ (by omega)
    omega
  · intro hfirst
    have hfew : (first.toNat - '0'.toNat) * 10 ^ rest.length ≤ 4 * 10 ^ rest.length :=
      Nat.mul_le_mul_right _ (by omega)
    omega

/-- One half is a five with nothing but zeros behind it. -/
theorem eq_half_iff :
    2 * digitsValue (first :: rest) = 10 ^ (rest.length + 1) ↔
      first = '5' ∧ rest.all (· == '0') = true := by
  have hbelow := digitsValue_lt hrest
  have hfive : '5'.toNat = '0'.toNat + 5 := rfl
  rw [all_zero_iff hrest, digitsValue_cons, digitsValue_singleton, Nat.pow_succ',
    ← Char.toNat_inj]
  constructor
  · intro hequal
    have hfirst : first.toNat = '5'.toNat := by
      rcases lt_trichotomy first.toNat '5'.toNat with hlower | hfirst | hupper
      · have hfew : (first.toNat - '0'.toNat) * 10 ^ rest.length ≤ 4 * 10 ^ rest.length :=
          Nat.mul_le_mul_right _ (by omega)
        omega
      · exact hfirst
      · have hmany : 6 * 10 ^ rest.length ≤ (first.toNat - '0'.toNat) * 10 ^ rest.length :=
          Nat.mul_le_mul_right _ (by omega)
        omega
    refine ⟨hfirst, ?_⟩
    rw [hfirst, hfive, Nat.add_sub_cancel_left] at hequal
    omega
  · rintro ⟨hfirst, hzero⟩
    rw [hfirst, hfive, Nat.add_sub_cancel_left]
    omega

end Half

/-- A row of digits is rounded to the nearest number of fewer digits, and to the even one of two. -/
theorem roundDigits_eq_roundDiv {count : ℕ} {row : List Char}
    (hrow : ∀ c ∈ row, c.isDigit = true) (hcount : count ≤ row.length) :
    roundDigits count row = roundDiv (digitsValue row) (10 ^ (row.length - count)) := by
  obtain ⟨kept, cut, rfl, rfl⟩ : ∃ kept cut, row = kept ++ cut ∧ kept.length = count :=
    ⟨row.take count, row.drop count, (List.take_append_drop count row).symm,
      List.length_take_of_le hcount⟩
  have hcut : ∀ c ∈ cut, c.isDigit = true := by
    intro c hmem
    exact hrow c (List.mem_append_right kept hmem)
  have hplaces : (kept ++ cut).length - kept.length = cut.length := by simp
  have hnumber : Nat.ofDigitChars 10 kept 0 = digitsValue kept := rfl
  have hsplit : digitsValue cut + 10 ^ cut.length * digitsValue kept = digitsValue (kept ++ cut) := by
    rw [digitsValue_append]
    ring
  obtain ⟨hquotient, hremainder⟩ :=
    (Nat.div_mod_unique (by positivity)).mpr ⟨hsplit, digitsValue_lt hcut⟩
  rw [hplaces, roundDiv, hquotient, hremainder, roundDigits, List.take_left, List.drop_left, hnumber]
  cases cut with
  | nil => rfl
  | cons first rest =>
      obtain ⟨-, hrest⟩ := List.forall_mem_cons.mp hcut
      have hlower := lt_half_iff first hrest
      have hhalf := eq_half_iff first hrest
      dsimp only [List.length_cons]
      rcases lt_trichotomy (2 * digitsValue (first :: rest)) (10 ^ (rest.length + 1))
        with hless | hequal | hmore
      · rw [if_pos hless, if_pos (hlower.mp hless)]
      · obtain ⟨rfl, hzeros⟩ := hhalf.mp hequal
        rw [if_neg hequal.not_lt, if_neg hequal.not_gt, if_neg (lt_irrefl _), hzeros]
        rfl
      · have hupper := mt hlower.mpr hmore.not_gt
        have hnot := mt hhalf.mpr hmore.ne'
        rw [if_neg hmore.not_gt, if_pos hmore, if_neg hupper, if_neg (by simpa using hnot)]

/-! ## Cutting -/

theorem decimalLength_mul_ten_pow {n : ℕ} (hn : 0 < n) (count : ℕ) :
    decimalLength (n * 10 ^ count) = decimalLength n + count := by
  rw [decimalLength, toDigits_mul_ten_pow hn, List.length_append, List.length_replicate]
  rfl

/-- Ten bits are worth more than three digits. -/
theorem three_mul_log2_lt {n : ℕ} (hn : n ≠ 0) : 3 * Nat.log2 n < 10 * decimalLength n := by
  have hlower := Nat.log2_self_le hn
  have hupper := (decimalLength_le_iff (decimalLength_pos n)).mp le_rfl
  refine (Nat.pow_lt_pow_iff_right Nat.one_lt_two).mp ?_
  calc 2 ^ (3 * Nat.log2 n) = (2 ^ Nat.log2 n) ^ 3 := by rw [Nat.mul_comm, Nat.pow_mul]
    _ < (10 ^ decimalLength n) ^ 3 :=
        Nat.pow_lt_pow_left (hlower.trans_lt hupper) (by decide)
    _ = (10 ^ 3) ^ decimalLength n := Nat.pow_right_comm ..
    _ ≤ (2 ^ 10) ^ decimalLength n := Nat.pow_le_pow_left (by decide) _
    _ = 2 ^ (10 * decimalLength n) := (Nat.pow_mul ..).symm

/-- Nothing is cut off an integer, and with the zeros behind its point it has as many digits as are
wanted. -/
theorem exists_cutDigits_eq (count : ℕ) {mantissa places : ℕ} (hmantissa : mantissa ≠ 0)
    (hreach : mantissa * 2 ^ places < 2 ^ cutReach) :
    ∃ decimals : ℕ, cutDigits (count + 10) mantissa places =
        ⟨false, mantissa * 2 ^ places * 10 ^ decimals, -decimals⟩ ∧
      count ≤ decimalLength (mantissa * 2 ^ places) + decimals := by
  have hn : mantissa * 2 ^ places ≠ 0 := Nat.mul_ne_zero hmantissa (by positivity)
  have hlog := log2_mul_two_pow hmantissa places
  have hwidth := (Nat.log2_lt hn).mpr hreach
  have hdigits := three_mul_log2_lt hn
  have hunit : tenPow 16 = 10000000000000000 := by decide
  simp only [cutReach] at hwidth
  rw [cutDigits, if_pos (by simp only [cutReach]; omega), cutTwice]
  simp only [hunit, digitBits]
  generalize hbits : (count + 10) * 33219280948873626 / 10000000000000000 + 10 = bits
  generalize hextra : ((bits : ℤ) - (places + Nat.log2 mantissa + 1)).toNat = extra
  generalize hdecimals : (2 * extra * 10000000000000000 + 33219280948873626) /
    (2 * 33219280948873626) = decimals
  refine ⟨decimals, ?_, by omega⟩
  have hkept : floorScaled mantissa (places + extra) = (mantissa * 2 ^ places * 2 ^ extra : ℕ) := by
    rw [floorScaled, floor, if_pos (by omega), ← Nat.cast_add, Int.toNat_natCast, Int.shiftLeft_eq,
      Nat.mul_assoc, ← Nat.pow_add]
    push_cast
    rfl
  rw [hkept, Int.toNat_natCast, Nat.shiftRight_eq_div_pow, Nat.mul_right_comm,
    Nat.mul_div_cancel _ (Nat.two_pow_pos extra)]
  rfl

/-! ## Rounding -/

theorem decimalLength_eq {count n : ℕ} (hlower : 10 ^ count ≤ n) (hupper : n < 10 ^ (count + 1)) :
    decimalLength n = count + 1 := by
  rw [decimalLength_eq_log (lt_of_lt_of_le (by positivity) hlower),
    Nat.log_eq_of_pow_le_of_lt_pow hlower hupper]

/-- A number that is rounded to as many digits has one digit more only if it is the next power of
ten, and then the last one is a zero. -/
theorem take_toDigits {count n : ℕ} (hlower : 10 ^ count ≤ n) (hupper : n ≤ 10 ^ (count + 1)) :
    ((Nat.toDigits 10 n).take (count + 1)).length = count + 1 ∧
      ∃ carry : ℕ, (Nat.toDigits 10 n).length = count + 1 + carry ∧
        digitsValue ((Nat.toDigits 10 n).take (count + 1)) * 10 ^ carry = n := by
  rcases hupper.lt_or_eq with hless | hpower
  · have hlength : (Nat.toDigits 10 n).length = count + 1 := decimalLength_eq hlower hless
    rw [List.take_of_length_le hlength.le]
    exact ⟨hlength, 0, hlength, (Nat.mul_one _).trans Nat.ofDigitChars_ten_toDigits⟩
  · have hlength : (Nat.toDigits 10 (10 ^ count)).length = count + 1 :=
      decimalLength_eq le_rfl (Nat.pow_lt_pow_right (by decide) (Nat.lt_succ_self count))
    rw [hpower, Nat.pow_succ, toDigits_mul_ten (by positivity), List.take_left' hlength,
      List.length_append, hlength]
    exact ⟨rfl, 1, rfl, congrArg (· * 10 ^ 1) Nat.ofDigitChars_ten_toDigits⟩

theorem significantPlace_natCast {n : ℕ} (hn : 0 < n) (count : ℕ) :
    significantPlace count n = decimalLength n - count := by
  rw [significantPlace_of_pos (by exact_mod_cast hn), Int.log_natCast, decimalLength_eq_log hn]
  push_cast
  ring

/-- The digits of an integer and the zeros behind its point are rounded at the place of the last
significant digit. -/
theorem roundDigits_mul_ten_pow {count n decimals : ℕ} (hn : 0 < n)
    (hlong : count ≤ decimalLength n + decimals) :
    (roundDigits count (Nat.toDigits 10 (n * 10 ^ decimals)) : ℤ) =
      nearestEven (n / (10 : ℚ) ^ significantPlace count n) := by
  have hlength : (Nat.toDigits 10 (n * 10 ^ decimals)).length = decimalLength n + decimals :=
    decimalLength_mul_ten_pow hn decimals
  have hnumber : digitsValue (Nat.toDigits 10 (n * 10 ^ decimals)) = n * 10 ^ decimals :=
    Nat.ofDigitChars_ten_toDigits
  rw [roundDigits_eq_roundDiv (fun c => Nat.isDigit_of_mem_toDigits (by decide) (by decide))
    (by rwa [hlength]), roundDiv_eq_nearestEven _ (by positivity), hlength, hnumber,
    significantPlace_natCast hn]
  congr 1
  rw [div_eq_div_iff (by positivity) (by positivity)]
  push_cast
  rw [mul_assoc, ← zpow_natCast, ← zpow_natCast, ← zpow_add₀ (by norm_num)]
  congr 2
  omega

/-- The digits that are shown of an integer, at the place where they are shown, stand for the integer
rounded to as many digits. -/
theorem value_shown (count : ℕ) {mantissa places : ℕ} (hmantissa : mantissa ≠ 0)
    (hreach : mantissa * 2 ^ places < 2 ^ cutReach) :
    let cut := cutDigits (count + 1 + 10) mantissa places
    let rounded := Nat.toDigits 10 (roundDigits (count + 1) cut.digitChars)
    let carry : ℤ := rounded.length - (count + 1 : ℕ)
    (rounded.take (count + 1)).length = count + 1 ∧
      (digitsValue (rounded.take (count + 1)) : ℚ) *
          (10 : ℚ) ^ (cut.leadingExponent + carry + 1 - (count + 1 : ℕ)) =
        significant (count + 1) (mantissa * 2 ^ places : ℕ) := by
  intro cut rounded carry
  obtain ⟨decimals, hcut, hlong⟩ := exists_cutDigits_eq (count + 1) hmantissa hreach
  change cut = _ at hcut
  have hpos : 0 < mantissa * 2 ^ places := by positivity
  generalize mantissa * 2 ^ places = n at hcut hlong hpos
  have hrow : cut.digitChars = Nat.toDigits 10 (n * 10 ^ decimals) := by
    rw [hcut]
    rfl
  have hleading : cut.leadingExponent = decimalLength n - 1 := by
    have hlength := decimalLength_mul_ten_pow hpos decimals
    rw [decimalLength] at hlength
    rw [Decimal.leadingExponent, hrow, hlength, hcut]
    push_cast
    ring
  have hrounded := roundDigits_mul_ten_pow hpos hlong
  have hposRat : (0 : ℚ) < n := by exact_mod_cast hpos
  obtain ⟨hlower, hupper⟩ := nearestEven_scaled_between hposRat (count + 1) (Nat.succ_pos count)
  rw [← hrow] at hrounded
  rw [← hrounded] at hlower hupper
  have hatLeast : 10 ^ count ≤ roundDigits (count + 1) cut.digitChars := by exact_mod_cast hlower
  obtain ⟨hwidth, extra, hextra, hvalue⟩ := take_toDigits hatLeast (by exact_mod_cast hupper)
  have hcarry : carry = extra := by
    simp only [carry, rounded, hextra]
    push_cast
    ring
  refine ⟨hwidth, ?_⟩
  rw [significant, ← hrounded, significantPlace_natCast hpos, hleading, hcarry]
  calc (digitsValue (rounded.take (count + 1)) : ℚ) *
        (10 : ℚ) ^ ((decimalLength n : ℤ) - 1 + extra + 1 - (count + 1 : ℕ))
      = digitsValue (rounded.take (count + 1)) * (10 : ℚ) ^ extra *
          (10 : ℚ) ^ ((decimalLength n : ℤ) - (count + 1 : ℕ)) := by
        rw [mul_assoc, ← zpow_natCast, ← zpow_add₀ (by norm_num)]
        congr 2
        ring
    _ = ((roundDigits (count + 1) cut.digitChars : ℤ) : ℚ) *
          (10 : ℚ) ^ ((decimalLength n : ℤ) - (count + 1 : ℕ)) := by
        rw [← hvalue]
        push_cast
        rfl

/-! ## Writing -/

/-- Without the zeros at its end a fraction is worth the same, and so is one zero in place of none. -/
theorem exists_stripFraction_eq (whole : List Char) {fraction : List Char}
    (hfraction : ∀ c ∈ fraction, c.isDigit = true) :
    ∃ kept, stripFraction (whole ++ '.' :: fraction) = whole ++ '.' :: kept ∧ kept ≠ [] ∧
      (∀ c ∈ kept, c.isDigit = true) ∧ ∀ exponent : ℤ,
        (digitsValue (whole ++ kept) : ℚ) * (10 : ℚ) ^ (exponent - kept.length) =
          digitsValue (whole ++ fraction) * (10 : ℚ) ^ (exponent - fraction.length) := by
  have hvalue := Written.value_dropTrailing whole fraction
  have hdigits := Display.isDigit_of_mem_dropTrailing (· == '0') hfraction
  rw [stripFraction, Text.dropTrailing_append_cons (by decide)]
  generalize Text.dropTrailing (· == '0') fraction = stripped at hvalue hdigits
  rcases List.eq_nil_or_concat stripped with rfl | ⟨front, last, rfl⟩
  · refine ⟨['0'], ?_, List.cons_ne_nil _ _, List.forall_mem_singleton.mpr rfl, ?_⟩
    · rw [if_pos (by simp), List.append_assoc]
      rfl
    · intro exponent
      rw [← hvalue]
      exact (Written.value_dropTrailing whole ['0'] exponent).symm
  · have hlast := hdigits last (by simp)
    refine ⟨_, if_neg ?_, by simp, hdigits, hvalue⟩
    rw [List.concat_eq_append, ← List.cons_append, ← List.append_assoc, List.getLast?_concat,
      beq_iff_eq, Option.some.injEq]
    rintro rfl
    exact absurd hlast (by decide)

/-- Digits with a point among them are a written number, with a power of ten behind them or
without. -/
theorem exists_written_stripFraction {whole fraction : List Char} (hwhole : whole ≠ [])
    (hdigits : ∀ c ∈ whole ++ fraction, c.isDigit = true) (power : Option WrittenPower) :
    ∃ written : Written, written.power = power ∧ written.fraction ≠ [] ∧
      written.chars = stripFraction (whole ++ '.' :: fraction) ++ written.powerChars ∧
      written.size = digitsValue (whole ++ fraction) *
        (10 : ℚ) ^ (written.powerValue - fraction.length) := by
  obtain ⟨kept, hstrip, hne, hkept, hvalue⟩ := exists_stripFraction_eq whole
    fun c hmem => hdigits c (List.mem_append_right whole hmem)
  let written : Written := ⟨whole, kept, power, hwhole,
    fun c hmem => hdigits c (List.mem_append_left fraction hmem), hkept⟩
  have hpoint : written.pointChars = '.' :: kept := if_neg (by simpa using hne)
  refine ⟨written, rfl, hne, ?_, hvalue written.powerValue⟩
  rw [hstrip, Written.chars, hpoint, ← List.append_assoc]

/-- The power of ten behind the digits. -/
def writtenPower (exponent : ℤ) : WrittenPower where
  negative := exponent < 0
  digits := Decimal.digitChars ⟨false, exponent.natAbs, 0⟩
  digits_ne_nil := Decimal.digitChars_ne_nil _
  isDigit_of_mem _ hmem := Decimal.isDigit_of_mem_digitChars hmem

theorem chars_writtenPower (exponent : ℤ) :
    (writtenPower exponent).chars = exponentChars exponent := by
  simp [WrittenPower.chars, WrittenPower.signChar, writtenPower, exponentChars, Decimal.digitChars]

theorem value_writtenPower (exponent : ℤ) : (writtenPower exponent).value = exponent := by
  simp only [WrittenPower.value, writtenPower, Decimal.digitsValue_digitChars, decide_eq_true_eq]
  split <;> omega

/-- An exponent of zero is not written. -/
theorem exists_power (exponent : ℤ) :
    ∃ power : Option WrittenPower, ∀ written : Written, written.power = power →
      written.powerChars = (if exponent = 0 then [] else exponentChars exponent) ∧
        written.powerValue = exponent := by
  by_cases hzero : exponent = 0
  · refine ⟨none, ?_⟩
    intro written hpower
    rw [Written.powerChars, Written.powerValue, hpower, if_pos hzero]
    exact ⟨rfl, hzero.symm⟩
  · refine ⟨some (writtenPower exponent), ?_⟩
    intro written hpower
    rw [Written.powerChars, Written.powerValue, hpower, if_neg hzero]
    exact ⟨chars_writtenPower exponent, value_writtenPower exponent⟩

/-- Without a power of ten, zeros fill the places up to the point. -/
theorem exists_written_fixed {digits : List Char} (hne : digits ≠ [])
    (hdigits : ∀ c ∈ digits, c.isDigit = true) (zeros : ℕ) {split : ℕ} (hsplit : 0 < split) :
    let front := List.replicate zeros '0' ++ digits
    let row := front ++ List.replicate (split - front.length) '0'
    ∃ written : Written, written.chars = stripFraction (row.take split ++ '.' :: row.drop split) ∧
      written.fraction ≠ [] ∧
      written.size = digitsValue digits * (10 : ℚ) ^ ((split : ℤ) - zeros - digits.length) := by
  intro front row
  have hpadded : digitsValue row = digitsValue digits * 10 ^ (split - front.length) := by
    rw [Decimal.digitsValue_append_zeros, Decimal.digitsValue_zeros_append]
  have hfront : front.length = zeros + digits.length := by simp [front]
  have hrow : row.length = front.length + (split - front.length) := by simp [row]
  have hdigit : ∀ c ∈ row, c.isDigit = true := by
    simp only [row, front, List.mem_append]
    rintro c ((hzero | hmem) | hzero)
    · exact Decimal.isDigit_of_mem_zeros hzero
    · exact hdigits c hmem
    · exact Decimal.isDigit_of_mem_zeros hzero
  have hwhole : row.take split ≠ [] := by simp [row, front, hne, hsplit.ne']
  obtain ⟨written, hpower, hfraction, hchars, hsize⟩ :=
    exists_written_stripFraction hwhole (by rwa [List.take_append_drop]) none
  have hnone : written.powerChars = [] := by rw [Written.powerChars, hpower]
  have hvalue : written.powerValue = 0 := by rw [Written.powerValue, hpower]
  refine ⟨written, by rw [hchars, hnone, List.append_nil], hfraction, ?_⟩
  rw [hsize, List.take_append_drop, hpadded, hvalue, List.length_drop, hrow, Nat.cast_mul,
    Nat.cast_pow, Nat.cast_ofNat, mul_assoc, ← zpow_natCast, ← zpow_add₀ (by norm_num)]
  congr 2
  omega

/-- A layout is a written number with a point, and stands for the digits at their place. -/
theorem exists_written_layout (range : FixedRange) {digits : List Char} (hne : digits ≠ [])
    (hdigits : ∀ c ∈ digits, c.isDigit = true) (exponent : ℤ) :
    ∃ written : Written, layout range digits exponent = written.chars ∧ written.fraction ≠ [] ∧
      written.size = digitsValue digits * (10 : ℚ) ^ (exponent + 1 - digits.length) := by
  have hlength : 0 < digits.length := List.length_pos_iff.mpr hne
  rw [layout]
  split
  next hfixed =>
    have hsplit : 0 < if exponent < 0 then 1 else exponent.toNat + 1 := by split <;> omega
    obtain ⟨written, hchars, hfraction, hsize⟩ :=
      exists_written_fixed hne hdigits (-exponent).toNat hsplit
    refine ⟨written, hchars.symm, hfraction, ?_⟩
    rw [hsize]
    congr 2
    split <;> omega
  next hscientific =>
    have hone : digits.take 1 ++ digits.drop 1 = digits := List.take_append_drop 1 digits
    obtain ⟨power, hpower⟩ := exists_power exponent
    obtain ⟨written, hwritten, hfraction, hchars, hsize⟩ :=
      exists_written_stripFraction (show digits.take 1 ≠ [] by simpa using hne) (by rwa [hone]) power
    obtain ⟨hpowerChars, hpowerValue⟩ := hpower written hwritten
    refine ⟨written, by rw [hchars, hpowerChars], hfraction, ?_⟩
    rw [hsize, hone, hpowerValue, List.length_drop, Nat.cast_sub hlength]
    congr 2
    push_cast
    ring

/-- With at least one digit, the text of an integer other than zero is a written number with a point
and stands for the integer rounded to as many digits. -/
theorem exists_written_significantText {count : ℕ} (hcount : 0 < count) (range : FixedRange)
    {mantissa : ℤ} {places : ℕ} (hmantissa : mantissa ≠ 0)
    (hreach : mantissa.natAbs * 2 ^ places < 2 ^ cutReach) :
    ∃ written : Written, significantText count range mantissa places =
        String.ofList ((if mantissa < 0 then ['-'] else []) ++ written.chars) ∧
      written.fraction ≠ [] ∧
      written.size = significant count (mantissa.natAbs * 2 ^ places : ℕ) := by
  obtain ⟨fewer, rfl⟩ := Nat.exists_eq_succ_of_ne_zero hcount.ne'
  obtain ⟨hlength, hvalue⟩ := value_shown fewer (Int.natAbs_ne_zero.mpr hmantissa) hreach
  rw [significantText]
  generalize cutDigits (fewer + 1 + 10) mantissa.natAbs places = cut at hlength hvalue
  generalize hrounded : Nat.toDigits 10 (roundDigits (fewer + 1) cut.digitChars) = rounded
    at hlength hvalue
  have hdigits : ∀ c ∈ rounded.take (fewer + 1), c.isDigit = true := by
    intro c hmem
    rw [← hrounded] at hmem
    exact Nat.isDigit_of_mem_toDigits (by decide) (by decide) (List.mem_of_mem_take hmem)
  have hne : rounded.take (fewer + 1) ≠ [] := by
    intro hnone
    rw [hnone] at hlength
    cases hlength
  obtain ⟨written, hchars, hfraction, hsize⟩ := exists_written_layout range hne hdigits
    (cut.leadingExponent + (rounded.length - (fewer + 1 : ℕ)))
  refine ⟨written, ?_, hfraction, ?_⟩
  · dsimp only
    rw [if_neg (Nat.succ_ne_zero fewer), ← hchars]
    split <;> rfl
  · rw [hsize, hlength]
    exact hvalue

end BigFloat

end SciCalc
