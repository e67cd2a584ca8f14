import SciCalc.Proofs.Decimal.DigitRuns
import SciCalc.Proofs.Decimal.FewDigits

/-! # Numbers written without anything superfluous

A number can be written in many ways. Without zeros that add nothing, and with the sign of the power
of ten only where it is needed, one way without a power of ten is left and one with it.
-/

namespace SciCalc

open Numeral

/-- There is one way to write a power of ten. -/
theorem WrittenPower.eq_of_value_eq {power power' : WrittenPower}
    (hunpadded : Unpadded power.digits) (hunpadded' : Unpadded power'.digits)
    (hsign : power.negative = decide (power.value < 0))
    (hsign' : power'.negative = decide (power'.value < 0)) (hvalue : power.value = power'.value) :
    power = power' := by
  have hnegative : power.negative = power'.negative := by rw [hsign, hsign', hvalue]
  have hnumber : digitsValue power.digits = digitsValue power'.digits := by
    simp only [WrittenPower.value, hnegative] at hvalue
    split at hvalue <;> omega
  have hdigits := hunpadded.eq_of_digitsValue_eq hunpadded' power.isDigit_of_mem
    power'.isDigit_of_mem power.digits_ne_nil power'.digits_ne_nil hnumber
  obtain ⟨negative, digits, _, _⟩ := power
  obtain ⟨negative', digits', _, _⟩ := power'
  obtain rfl : negative = negative' := hnegative
  obtain rfl : digits = digits' := hdigits
  rfl

namespace Written

/-- The number that a text without its sign stands for. -/
def size (written : Written) : ℚ := (written.decimal false).size

/-- Written without a power of ten and without superfluous zeros. -/
structure IsPlain (written : Written) : Prop where
  power : written.power = none
  whole : Unpadded written.whole
  fraction : written.fraction.getLast? ≠ some '0'

/-- Written with one digit in front of the point, which is no zero, with a power of ten, and without
superfluous zeros. -/
structure IsScientific (written : Written) : Prop where
  whole : ∃ first, first ≠ '0' ∧ written.whole = [first]
  fraction : written.fraction.getLast? ≠ some '0'
  power : ∃ power, written.power = some power ∧ Unpadded power.digits ∧
    power.negative = decide (power.value < 0)

variable {written written' : Written}

theorem isDigit_of_mem (written : Written) :
    ∀ c ∈ written.whole ++ written.fraction, c.isDigit = true := by
  intro c hmem
  rcases List.mem_append.mp hmem with hwhole | hfraction
  · exact written.isDigit_of_mem_whole c hwhole
  · exact written.isDigit_of_mem_fraction c hfraction

theorem ext_of_eq (hwhole : written.whole = written'.whole)
    (hfraction : written.fraction = written'.fraction) (hpower : written.power = written'.power) :
    written = written' := by
  cases written
  cases written'
  simp_all

theorem toRat_decimal (written : Written) (negative : Bool) :
    (written.decimal negative).toRat = if negative then -written.size else written.size :=
  (written.decimal negative).toRat_eq

theorem size_of_none (hpower : written.power = none) :
    written.size = digitsValue (written.whole ++ written.fraction) *
      (10 : ℚ) ^ (-(written.fraction.length : ℤ)) := by
  rw [size, decimal, powerValue, hpower, Decimal.size, zero_sub]

/-- If the last digit of a fraction is no zero, the number needs all the digits. -/
theorem length_fraction_le (hlast : written.fraction.getLast? ≠ some '0')
    (hpower : written.power = none) (hpower' : written'.power = none)
    (hsize : written.size = written'.size) : written.fraction.length ≤ written'.fraction.length := by
  by_contra hlonger
  obtain ⟨more, hmore⟩ := Nat.exists_eq_add_of_lt (not_le.mp hlonger)
  have hne : written.fraction ≠ [] := by
    intro hnil
    rw [hnil, List.length_nil] at hmore
    omega
  have hend : (written.whole ++ written.fraction).getLast? = written.fraction.getLast? :=
    List.getLast?_append_of_ne_nil _ hne
  refine digitsValue_mod_ten (by simp [hne]) written.isDigit_of_mem (hend ▸ hlast) ?_
  rw [size_of_none hpower, size_of_none hpower', hmore,
    show -((written'.fraction.length + more + 1 : ℕ) : ℤ) =
      -((more + 1 : ℕ) : ℤ) + -(written'.fraction.length : ℤ) by push_cast; ring,
    zpow_add₀ (by norm_num), ← mul_assoc] at hsize
  have hdigits := mul_right_cancel₀ (zpow_ne_zero _ (by norm_num)) hsize
  rw [zpow_neg, zpow_natCast, ← div_eq_mul_inv, div_eq_iff (by positivity)] at hdigits
  have hmultiple : digitsValue (written.whole ++ written.fraction) =
      digitsValue (written'.whole ++ written'.fraction) * 10 ^ (more + 1) := by
    exact_mod_cast hdigits
  rw [hmultiple, Nat.pow_succ, ← Nat.mul_assoc, Nat.mul_mod_left]

/-- There is one way to write a number without a power of ten. -/
theorem IsPlain.eq_of_size_eq (hplain : written.IsPlain) (hplain' : written'.IsPlain)
    (hsize : written.size = written'.size) : written = written' := by
  have hlength : written.fraction.length = written'.fraction.length :=
    le_antisymm (length_fraction_le hplain.fraction hplain.power hplain'.power hsize)
      (length_fraction_le hplain'.fraction hplain'.power hplain.power hsize.symm)
  have hfractionPos : (10 : ℚ) ^ (-(written'.fraction.length : ℤ)) ≠ 0 :=
    zpow_ne_zero _ (by norm_num)
  rw [size_of_none hplain.power, size_of_none hplain'.power, hlength] at hsize
  have hdigits := Nat.cast_injective (mul_right_cancel₀ hfractionPos hsize)
  obtain ⟨hwhole, hfraction⟩ := parts_of_digitsValue_eq written.isDigit_of_mem_fraction
    written'.isDigit_of_mem_fraction hlength hdigits
  refine ext_of_eq ?_ ?_ (hplain.power.trans hplain'.power.symm)
  · exact hplain.whole.eq_of_digitsValue_eq hplain'.whole written.isDigit_of_mem_whole
      written'.isDigit_of_mem_whole written.whole_ne_nil written'.whole_ne_nil hwhole
  · exact eq_of_digitsValue_eq written.isDigit_of_mem_fraction written'.isDigit_of_mem_fraction
      hlength hfraction

/-- Without superfluous zeros, there are no more digits before the point than the number needs. -/
theorem IsPlain.length_whole_le (hplain : written.IsPlain) {places : ℕ} (hplaces : 0 < places)
    (hless : written.size < (10 : ℚ) ^ places) : written.whole.length ≤ places := by
  rcases hplain.whole with hzero | hhead
  · rw [hzero]
    exact hplaces
  · obtain ⟨first, rest, hwhole⟩ := List.exists_cons_of_ne_nil written.whole_ne_nil
    have hlower := le_digitsValue
      (written.isDigit_of_mem_whole first (by rw [hwhole]; exact List.mem_cons_self))
      (by simpa [hwhole] using hhead) (rest ++ written.fraction)
    rw [List.length_append] at hlower
    have hsize : (10 : ℚ) ^ rest.length ≤ written.size := by
      rw [size_of_none hplain.power, hwhole, List.cons_append, zpow_neg, zpow_natCast,
        ← div_eq_mul_inv, le_div_iff₀ (by positivity), ← pow_add]
      exact_mod_cast hlower
    rw [hwhole, List.length_cons]
    exact (pow_lt_pow_iff_right₀ (by norm_num : (1 : ℚ) < 10)).mp (hsize.trans_lt hless)

/-- The digits of a scientific text neither begin nor end with a zero. -/
theorem IsScientific.digits_spec (hscientific : written.IsScientific) :
    Unpadded (written.whole ++ written.fraction) ∧
      digitsValue (written.whole ++ written.fraction) % 10 ≠ 0 := by
  obtain ⟨first, hfirst, hwhole⟩ := hscientific.whole
  refine ⟨.inr (by simpa [hwhole] using hfirst), ?_⟩
  refine digitsValue_mod_ten (by simp [hwhole]) written.isDigit_of_mem ?_
  by_cases hnil : written.fraction = []
  · simpa [hwhole, hnil] using hfirst
  · rw [List.getLast?_append_of_ne_nil _ hnil]
    exact hscientific.fraction

/-- There is one way to write a number with a power of ten. -/
theorem IsScientific.eq_of_size_eq (hscientific : written.IsScientific)
    (hscientific' : written'.IsScientific) (hsize : written.size = written'.size) :
    written = written' := by
  obtain ⟨hunpadded, hlast⟩ := hscientific.digits_spec
  obtain ⟨hunpadded', hlast'⟩ := hscientific'.digits_spec
  obtain ⟨hdigits, hexponent⟩ := Decimal.digits_eq_of_value_eq hlast hlast' hsize
  obtain ⟨first, -, hwhole⟩ := hscientific.whole
  obtain ⟨first', -, hwhole'⟩ := hscientific'.whole
  have hrun := hunpadded.eq_of_digitsValue_eq hunpadded' written.isDigit_of_mem
    written'.isDigit_of_mem (by simp [hwhole]) (by simp [hwhole']) hdigits
  rw [hwhole, hwhole', List.singleton_append, List.singleton_append, List.cons.injEq] at hrun
  obtain ⟨rfl, hfraction⟩ := hrun
  obtain ⟨power, hpower, hpadding, hsign⟩ := hscientific.power
  obtain ⟨power', hpower', hpadding', hsign'⟩ := hscientific'.power
  have hvalue : power.value = power'.value := by
    change written.powerValue - _ = written'.powerValue - _ at hexponent
    rw [hfraction, sub_left_inj, powerValue, powerValue, hpower, hpower'] at hexponent
    exact hexponent
  refine ext_of_eq (hwhole.trans hwhole'.symm) hfraction ?_
  rw [hpower, hpower',
    WrittenPower.eq_of_value_eq hpadding hpadding' hsign hsign' hvalue]

end Written

end SciCalc
