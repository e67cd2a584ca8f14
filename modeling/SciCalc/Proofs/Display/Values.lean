import Mathlib.Algebra.Order.Floor.Semifield
import Mathlib.Data.List.DropRight
import SciCalc.Proofs.Decimal.Canonical
import SciCalc.Proofs.Display.Written

/-! # What the display keeps of a number

Zeros that are taken away at the end of a fraction or in front of a power of ten are worth nothing.
So the clean-ups of a text with a power of ten keep the number, and cutting a text without one at
some place cuts the number toward zero at this place. What is left has no superfluous zeros.
-/

namespace SciCalc

open Numeral Text

namespace Text

theorem exists_eq_dropTrailing_append (digits : List Char) :
    ∃ count, digits = dropTrailing (· == '0') digits ++ List.replicate count '0' := by
  refine ⟨(digits.reverse.takeWhile (· == '0')).length, ?_⟩
  have hzeros : digits.reverse.takeWhile (· == '0') =
      List.replicate (digits.reverse.takeWhile (· == '0')).length '0' :=
    List.eq_replicate_of_mem fun c hmem =>
      beq_iff_eq.mp (List.all_eq_true.mp List.all_takeWhile c hmem)
  have hsplit := congrArg List.reverse
    (List.takeWhile_append_dropWhile (p := (· == '0')) (l := digits.reverse))
  rw [hzeros] at hsplit
  simpa [dropTrailing] using hsplit.symm

theorem getLast?_dropTrailing (digits : List Char) :
    (dropTrailing (· == '0') digits).getLast? ≠ some '0' := by
  intro hlast
  rw [dropTrailing, List.getLast?_reverse] at hlast
  have hkept := List.head?_dropWhile_not (· == '0') digits.reverse
  rw [hlast] at hkept
  exact absurd hkept (by decide)

theorem dropTrailing_idem {α : Type} (drops : α → Bool) (xs : List α) :
    dropTrailing drops (dropTrailing drops xs) = dropTrailing drops xs := by
  rw [dropTrailing, dropTrailing, List.reverse_reverse, List.dropWhile_idempotent]

end Text

/-! ## Cutting toward zero -/

/-- A number cut toward zero to some decimals. -/
def truncated (places : ℕ) (q : ℚ) : ℚ :=
  (if q < 0 then ⌈q * 10 ^ places⌉ else ⌊q * 10 ^ places⌋ : ℤ) / 10 ^ places

theorem truncated_of_nonneg {q : ℚ} (hq : 0 ≤ q) (places : ℕ) :
    truncated places q = (⌊q * 10 ^ places⌋₊ : ℚ) / 10 ^ places := by
  rw [truncated, if_neg (not_lt.mpr hq), ← natCast_floor_eq_intCast_floor (by positivity)]

theorem truncated_le {q : ℚ} (hq : 0 ≤ q) (places : ℕ) : truncated places q ≤ q := by
  rw [truncated_of_nonneg hq, div_le_iff₀ (by positivity)]
  exact Nat.floor_le (by positivity)

theorem truncated_neg (places : ℕ) (q : ℚ) : truncated places (-q) = -truncated places q := by
  rcases lt_trichotomy q 0 with hneg | rfl | hpos
  · rw [truncated, truncated, if_neg (by linarith), if_pos hneg, neg_mul, Int.floor_neg,
      Int.cast_neg, neg_div]
  · simp [truncated]
  · rw [truncated, truncated, if_pos (by linarith), if_neg (by linarith), neg_mul, Int.ceil_neg,
      Int.cast_neg, neg_div]

/-- Nothing is cut off a number that has no more decimals. -/
theorem truncated_of_eq_natCast {q : ℚ} {places n : ℕ} (hn : q * 10 ^ places = n) :
    truncated places q = q := by
  have hq : q = n / 10 ^ places := by rw [← hn, mul_div_cancel_right₀ _ (by positivity)]
  rw [truncated_of_nonneg (by rw [hq]; positivity), hn, Nat.floor_natCast, hq]

/-! ## Powers of ten -/

namespace Display

theorem unpadded_dropLeadingZeros (digits : List Char) : Unpadded (dropLeadingZeros digits) := by
  fun_induction dropLeadingZeros digits with
  | case1 next rest ih => exact ih
  | case2 digits hother =>
      rcases digits with _ | ⟨c, _ | ⟨next, rest⟩⟩
      · exact .inr (by simp)
      · by_cases hzero : c = '0'
        · exact .inl (by rw [hzero])
        · exact .inr (by simpa using hzero)
      · refine .inr fun hhead => ?_
        obtain rfl : c = '0' := by simpa using hhead
        exact hother next rest rfl

theorem dropLeadingZeros_idem (digits : List Char) :
    dropLeadingZeros (dropLeadingZeros digits) = dropLeadingZeros digits := by
  fun_induction dropLeadingZeros digits with
  | case1 next rest ih => exact ih
  | case2 digits hother => exact dropLeadingZeros.eq_2 digits hother

theorem digitsValue_dropLeadingZeros (digits : List Char) :
    digitsValue (dropLeadingZeros digits) = digitsValue digits := by
  fun_induction dropLeadingZeros digits with
  | case1 next rest ih =>
      rw [ih]
      exact (Decimal.digitsValue_zeros_append 1 (next :: rest)).symm
  | case2 digits => rfl

end Display

theorem WrittenPower.value_unpadded (power : WrittenPower) :
    power.unpadded.value = power.value := by
  rw [value, value, unpadded, Display.digitsValue_dropLeadingZeros]

namespace Written

variable (written : Written)

theorem powerValue_tidied : written.tidied.powerValue = written.powerValue := by
  rw [powerValue, powerValue, tidied]
  cases written.power with
  | none => rfl
  | some power => exact power.value_unpadded

/-- The clean-ups leave nothing to take away. -/
theorem tidied_tidied : written.tidied.tidied = written.tidied := by
  refine ext_of_eq rfl (dropTrailing_idem _ _) ?_
  cases hpower : written.power with
  | none => simp [tidied, hpower]
  | some power => simp [tidied, hpower, WrittenPower.unpadded, Display.dropLeadingZeros_idem]

/-! ## Fractions -/

/-- Zeros at the end of a fraction are worth nothing. -/
theorem value_dropTrailing (whole fraction : List Char) (exponent : ℤ) :
    (digitsValue (whole ++ dropTrailing (· == '0') fraction) : ℚ) *
        (10 : ℚ) ^ (exponent - (dropTrailing (· == '0') fraction).length) =
      digitsValue (whole ++ fraction) * (10 : ℚ) ^ (exponent - fraction.length) := by
  obtain ⟨count, hcount⟩ := exists_eq_dropTrailing_append fraction
  generalize dropTrailing (· == '0') fraction = kept at hcount
  rw [hcount, ← List.append_assoc, Decimal.digitsValue_append_zeros, List.length_append,
    List.length_replicate, Nat.cast_mul, Nat.cast_pow, Nat.cast_ofNat, mul_assoc, ← zpow_natCast,
    ← zpow_add₀ (by norm_num)]
  congr 2
  push_cast
  ring

/-- The clean-ups keep the number. -/
theorem size_tidied : written.tidied.size = written.size := by
  have hvalue := value_dropTrailing written.whole written.fraction written.powerValue
  rw [← powerValue_tidied] at hvalue
  exact hvalue.trans (by rw [powerValue_tidied]; rfl)

theorem isScientific_tidied {power : WrittenPower} (hpower : written.power = some power)
    (hsign : power.negative = decide (power.value < 0))
    (hwhole : ∃ first, first ≠ '0' ∧ written.whole = [first]) : written.tidied.IsScientific where
  whole := hwhole
  fraction := getLast?_dropTrailing written.fraction
  power := by
    refine ⟨power.unpadded, ?_, Display.unpadded_dropLeadingZeros power.digits, ?_⟩
    · rw [tidied, hpower]
      rfl
    · rw [power.value_unpadded]
      exact hsign

theorem getLast?_fraction_cutAt (places : ℕ) :
    (written.cutAt places).fraction.getLast? ≠ some '0' := by
  dsimp only [cutAt]
  split <;> exact getLast?_dropTrailing _

theorem length_fraction_cutAt_le (places : ℕ) :
    (written.cutAt places).fraction.length ≤ places := by
  dsimp only [cutAt]
  split
  · exact (dropTrailing_sublist _ _).length_le.trans (List.length_take_le _ _)
  next hlonger => exact not_lt.mp hlonger

theorem IsScientific.mark_mem {written : Written} (hscientific : written.IsScientific)
    (negative : Bool) : 'e' ∈ (if negative then ['-'] else []) ++ written.chars := by
  obtain ⟨power, hpower, -⟩ := hscientific.power
  rw [written.signed_chars _ hpower]
  exact List.mem_append_right _ List.mem_cons_self

/-- The digits up to a place stand for the number cut toward zero at this place. -/
theorem truncated_value (whole : List Char) {fraction : List Char}
    (hdigits : ∀ c ∈ fraction, c.isDigit = true) (places : ℕ) :
    truncated places (digitsValue (whole ++ fraction) * (10 : ℚ) ^ (-(fraction.length : ℤ))) =
      digitsValue (whole ++ fraction.take places) *
        (10 : ℚ) ^ (-((fraction.take places).length : ℤ)) := by
  rw [zpow_neg, zpow_neg, zpow_natCast, zpow_natCast, ← div_eq_mul_inv, ← div_eq_mul_inv]
  rcases Nat.le_total places fraction.length with hle | hle
  · -- The digits that stay are a quotient, and those that go are what remains.
    obtain ⟨more, hmore⟩ := Nat.exists_eq_add_of_le hle
    have hless := digitsValue_lt fun c hmem => hdigits c (List.mem_of_mem_drop (i := places) hmem)
    have hrun := digitsValue_append (whole ++ fraction.take places) (fraction.drop places)
    have hback : (fraction.drop places).length = more := by rw [List.length_drop]; omega
    rw [List.append_assoc, List.take_append_drop, hback] at hrun
    rw [hback] at hless
    have hquotient : digitsValue (whole ++ fraction) / 10 ^ more =
        digitsValue (whole ++ fraction.take places) := by
      rw [hrun, Nat.mul_comm, Nat.mul_add_div (by positivity), Nat.div_eq_of_lt hless,
        Nat.add_zero]
    have hscaled : (digitsValue (whole ++ fraction) : ℚ) / 10 ^ fraction.length * 10 ^ places =
        digitsValue (whole ++ fraction) / ((10 ^ more : ℕ) : ℚ) := by
      rw [hmore, pow_add]
      push_cast
      field_simp
    rw [truncated_of_nonneg (by positivity), hscaled, Nat.floor_div_eq_div, hquotient,
      List.length_take, min_eq_left hle]
  · obtain ⟨more, rfl⟩ := Nat.exists_eq_add_of_le hle
    rw [List.take_of_length_le hle]
    refine truncated_of_eq_natCast (n := digitsValue (whole ++ fraction) * 10 ^ more) ?_
    rw [pow_add]
    push_cast
    field_simp

section Plain

variable (hpower : written.power = none)

include hpower

theorem isPlain_cutAt (hwhole : Unpadded written.whole) (places : ℕ) :
    (written.cutAt places).IsPlain where
  power := hpower
  whole := hwhole
  fraction := written.getLast?_fraction_cutAt places

/-- Cutting off a fraction cuts the number toward zero. -/
theorem size_cutAt (places : ℕ) : (written.cutAt places).size = truncated places written.size := by
  have hpowerCut : (written.cutAt places).power = none := hpower
  have hkept := value_dropTrailing written.whole written.fraction 0
  rw [zero_sub, zero_sub, ← size_of_none hpower] at hkept
  have hdigits := Display.isDigit_of_mem_dropTrailing (· == '0') written.isDigit_of_mem_fraction
  rw [size_of_none hpowerCut, ← hkept, truncated_value _ hdigits]
  dsimp only [cutAt]
  split
  next hshorter =>
    have hcut := value_dropTrailing written.whole
      ((dropTrailing (· == '0') written.fraction).take places) 0
    rwa [zero_sub, zero_sub] at hcut
  next hlonger => rw [List.take_of_length_le (not_lt.mp hlonger)]

end Plain

end Written

end SciCalc
