import SciCalc.Proofs.Double.Nearest

/-! # The end of the range

A number is rounded to an infinity from halfway between the greatest double and the next power of
two on: there the tie goes to the even mantissa, which no double has.
-/

namespace SciCalc.Double

/-- The least positive number that is rounded to an infinity. -/
def overflowThreshold : ℚ := (2 : ℚ) ^ (1024 : ℤ) - (2 : ℚ) ^ (970 : ℤ)

/-- The threshold, counted in units of the last place of the greatest double. -/
theorem overflowThreshold_eq :
    overflowThreshold = ((2 ^ 53 : ℤ) - 1 / 2 : ℚ) * (2 : ℚ) ^ (971 : ℤ) := by
  have hpower : (2 : ℚ) ^ (1024 : ℤ) = 2 ^ 54 * (2 : ℚ) ^ (970 : ℤ) := by
    rw [← zpow_natCast, ← zpow_add₀ two_ne_zero]
    rfl
  have hunit : (2 : ℚ) ^ (971 : ℤ) = 2 * (2 : ℚ) ^ (970 : ℤ) := by
    rw [← zpow_one_add₀ two_ne_zero]
    rfl
  rw [overflowThreshold, hpower, hunit]
  generalize (2 : ℚ) ^ (970 : ℤ) = unit
  push_cast
  ring

theorem zpow_lt_overflowThreshold : (2 : ℚ) ^ (1023 : ℤ) < overflowThreshold := by
  have hpower : (2 : ℚ) ^ (1023 : ℤ) = 2 ^ 52 * (2 : ℚ) ^ (971 : ℤ) := by
    rw [← zpow_natCast, ← zpow_add₀ two_ne_zero]
    rfl
  rw [overflowThreshold_eq, hpower]
  exact mul_lt_mul_of_pos_right (by norm_num) (by positivity)

theorem overflowThreshold_lt_zpow : overflowThreshold < (2 : ℚ) ^ (1024 : ℤ) :=
  sub_lt_self _ (by positivity)

/-- The greatest double lies below the threshold. -/
theorem greatest_lt_overflowThreshold :
    9007199254740991 * (2 : ℚ) ^ greatestExponent < overflowThreshold := by
  rw [overflowThreshold_eq]
  exact mul_lt_mul_of_pos_right (by norm_num) (by positivity)

/-- A mantissa that fits, or has just been rounded up to the next power of two, gives a finite
double exactly if there is room for its exponent. -/
theorem isFinite_ofMantissa_iff (negative : Bool) {mantissa : Nat} {place : Int}
    (hmantissa : mantissa ≤ mantissaBound) (hleast : leastExponent ≤ place)
    (hnormal : leastNormalMantissa ≤ mantissa ∨ place = leastExponent) :
    (ofMantissa negative mantissa place).isFinite = true ↔
      place < greatestExponent ∨ place = greatestExponent ∧ mantissa < mantissaBound := by
  unfold ofMantissa
  split
  next hcanonical =>
    obtain ⟨hless, -, hgreatest, -⟩ := hcanonical
    exact iff_of_true rfl (hgreatest.lt_or_eq.imp_right fun heq => ⟨heq, hless⟩)
  next hnot =>
    split
    next hcarried => exact iff_of_true rfl (.inl (by omega))
    next hlarge =>
      refine iff_of_false Bool.false_ne_true ?_
      rintro (hless | ⟨rfl, hfits⟩)
      · -- The mantissa fits, or it is carried to the next exponent, for which there is room.
        rcases hmantissa.lt_or_eq with hfits | rfl
        · exact hnot ⟨hfits, hleast, hless.le, hnormal⟩
        · exact hlarge ⟨rfl, by omega, by omega⟩
      · exact hnot ⟨hfits, hleast, le_rfl, hnormal⟩

/-- The double nearest to a fraction is finite exactly below the threshold. -/
theorem isFinite_ofFraction_iff (negative : Bool) {num den : Nat} (hden : 0 < den) :
    (ofFraction negative num den).isFinite = true ↔ (num : ℚ) / den < overflowThreshold := by
  rcases Nat.eq_zero_or_pos num with rfl | hnum
  · rw [Nat.cast_zero, zero_div]
    exact iff_of_true rfl (lt_trans (by positivity) zpow_lt_overflowThreshold)
  have hratioPos : (0 : ℚ) < (num : ℚ) / den := by positivity
  have hplace := lastPlace_eq hnum hden
  have hfits := roundDiv_lastPlace_le hden hnum
  have hfull := le_roundDiv_lastPlace hden hnum
  have hnearest := roundDiv_scaleBy Nat.two_pos num hden (lastPlace num den)
  rw [ofFraction_of_pos negative hnum]
  have hbelow := Int.lt_zpow_iff_log_lt Nat.one_lt_two hratioPos (x := 1023)
  have habove := Int.lt_zpow_iff_log_lt Nat.one_lt_two hratioPos (x := 1024)
  generalize lastPlace num den = place at hplace hfits hfull hnearest ⊢
  generalize Int.log 2 ((num : ℚ) / den) = binade at hplace hbelow habove
  change place = max (binade - 52) (-1074) at hplace
  have hleast : leastExponent ≤ place := by
    change -1074 ≤ place
    omega
  rw [isFinite_ofMantissa_iff negative hfits hleast hfull]
  change place < 971 ∨ place = 971 ∧ _ ↔ _
  rw [Nat.cast_ofNat] at hbelow habove hnearest
  rcases lt_trichotomy binade 1023 with hsmall | rfl | hlarge
  · refine iff_of_true (.inl (by omega)) ?_
    exact (hbelow.mpr hsmall).trans zpow_lt_overflowThreshold
  · -- The mantissas of the last binade are counted in units of the last place.
    obtain rfl : place = 971 := by omega
    have hround : roundDiv (scaleBy 2 num den (-971)).1 (scaleBy 2 num den (-971)).2 <
        mantissaBound ↔ nearestEven ((num : ℚ) / den / 2 ^ (971 : ℤ)) < 2 ^ 53 := by
      rw [← hnearest]
      exact Int.ofNat_lt.symm
    rw [or_iff_right (lt_irrefl _), and_iff_right rfl, hround, nearestEven_lt_iff (by norm_num),
      div_lt_iff₀ (by positivity), overflowThreshold_eq]
  · refine iff_of_false (by omega) ?_
    have hnot := mt habove.mp (not_lt.mpr (show 1024 ≤ binade by omega))
    exact fun hless => hnot (hless.trans overflowThreshold_lt_zpow)

/-- What is at most a finite double is not rounded to an infinity. -/
theorem isFinite_ofFraction (negative : Bool) {num den : Nat} (hden : 0 < den) {y : Double}
    (hy : y.isFinite = true) (hle : (num : ℚ) / den ≤ y.toRat) :
    (ofFraction negative num den).isFinite = true := by
  rw [isFinite_ofFraction_iff negative hden]
  calc (num : ℚ) / den ≤ |y.toRat| := hle.trans (le_abs_self _)
    _ ≤ 9007199254740991 * (2 : ℚ) ^ greatestExponent := abs_toRat_le hy
    _ < overflowThreshold := greatest_lt_overflowThreshold

/-- An integer is finite as a double exactly if its size is below the threshold. -/
theorem isFinite_ofInt_iff (n : ℤ) :
    (ofInt n).isFinite = true ↔ (n.natAbs : ℚ) < overflowThreshold := by
  rw [ofInt, isFinite_ofFraction_iff _ Nat.one_pos, Nat.cast_one, div_one]

end SciCalc.Double
