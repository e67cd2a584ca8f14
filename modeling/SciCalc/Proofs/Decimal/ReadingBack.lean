import SciCalc.Decimal.Shortest
import SciCalc.Proofs.Double.Rounding

/-! # Decimals that read back

The double nearest to a decimal does not change when a zero at the end of the digits moves into
the exponent, and its sign is the sign of the decimal. The shortest decimal of a double reads
back as the double: a candidate is taken only if it does, and the exact value always does.
-/

namespace SciCalc

theorem decimalLength_mul_ten {n : Nat} (hn : 0 < n) :
    decimalLength (n * 10) = decimalLength n + 1 := by
  rw [decimalLength, toDigits_mul_ten hn, List.length_append]
  rfl

namespace Decimal

/-! ## The nearest double -/

theorem toDouble_zero (negative : Bool) (exponent : Int) :
    toDouble ⟨negative, 0, exponent⟩ = Double.zero negative := by
  simp [toDouble]

/-- A zero at the end of the digits is worth one in the exponent. -/
theorem toDouble_mul_ten (negative : Bool) (n : Nat) (exponent : Int) :
    toDouble ⟨negative, n * 10, exponent⟩ = toDouble ⟨negative, n, exponent + 1⟩ := by
  rcases Nat.eq_zero_or_pos n with rfl | hn
  · rw [Nat.zero_mul, toDouble_zero, toDouble_zero]
  · have hlength : ((decimalLength (n * 10) : Nat) : Int) + exponent =
        decimalLength n + (exponent + 1) := by
      rw [decimalLength_mul_ten hn]
      omega
    have hnonzero : n * 10 ≠ 0 := by omega
    simp only [toDouble, hlength, hnonzero, hn.ne', if_false, scaleTen_eq_scaleBy]
    congr 2
    refine Double.ofFraction_congr negative (scaleBy_den_pos (by decide) _ _ Nat.one_pos)
      (scaleBy_den_pos (by decide) _ _ Nat.one_pos) ?_
    rw [ratio_scaleBy, ratio_scaleBy, zpow_add_one₀ (by norm_num)]
    push_cast
    ring

theorem toDouble_mul_ten_pow (negative : Bool) (n count : Nat) (exponent : Int) :
    toDouble ⟨negative, n * 10 ^ count, exponent⟩ = toDouble ⟨negative, n, exponent + count⟩ := by
  induction count generalizing exponent with
  | zero => simp
  | succ count ih =>
      rw [Nat.pow_succ, ← Nat.mul_assoc, toDouble_mul_ten, ih]
      congr 2
      push_cast
      ring

/-- The nearest double has the sign of the decimal. -/
theorem neg_toDouble (negative : Bool) (n : Nat) (exponent : Int) :
    (toDouble ⟨negative, n, exponent⟩).neg = toDouble ⟨!negative, n, exponent⟩ := by
  simp only [toDouble]
  split
  · rfl
  split
  · rfl
  split
  · rfl
  · exact Double.neg_ofFraction _ _ _

theorem isNegative_toDouble (d : Decimal) : d.toDouble.isNegative = d.negative := by
  simp only [toDouble]
  split
  · rfl
  split
  · rfl
  split
  · rfl
  · exact Double.isNegative_ofFraction _ _ _

theorem toDouble_ne_nan (d : Decimal) : d.toDouble ≠ .nan := by
  simp only [toDouble]
  split
  · exact nofun
  split
  · exact nofun
  split
  · exact nofun
  · exact Double.ofFraction_ne_nan _ _ _

theorem toDouble_of_negative {d : Decimal} {mantissa : Nat} {exponent : Int}
    {canonical : IsCanonical mantissa exponent} (hsign : d.negative = false)
    (hreads : d.toDouble = .finite false mantissa exponent canonical) (negative : Bool) :
    toDouble { d with negative := negative } = .finite negative mantissa exponent canonical := by
  obtain ⟨sign, n, place⟩ := d
  obtain rfl : sign = false := hsign
  cases negative with
  | false => exact hreads
  | true =>
      have hneg := neg_toDouble false n place
      rw [hreads] at hneg
      exact hneg.symm

/-! ## Zeros at the end -/

theorem toDouble_stripZeros (negative : Bool) (fuel n : Nat) (exponent : Int) :
    toDouble ⟨negative, (stripZeros fuel n exponent).1, (stripZeros fuel n exponent).2⟩ =
      toDouble ⟨negative, n, exponent⟩ := by
  induction fuel generalizing n exponent with
  | zero => rfl
  | succ fuel ih =>
      rw [stripZeros]
      split
      next hzero =>
        rw [ih, ← toDouble_mul_ten, Nat.div_mul_cancel (Nat.dvd_of_mod_eq_zero hzero)]
      · rfl

/-- A decimal without the zeros at its end has the same nearest double. -/
theorem toDouble_normalize (d : Decimal) : d.normalize.toDouble = d.toDouble := by
  obtain ⟨negative, n, exponent⟩ := d
  rw [normalize]
  split
  next hzero =>
    obtain rfl : n = 0 := hzero
    rw [toDouble_zero, toDouble_zero]
  · exact toDouble_stripZeros negative _ n exponent

theorem negative_normalize (d : Decimal) : d.normalize.negative = d.negative := by
  unfold normalize
  split <;> rfl

/-! ## The exact decimal -/

/-- The exact decimal of a double stands for the same number. -/
theorem exact_value (mantissa : Nat) (exponent : Int) :
    ((exact mantissa exponent).digits : ℚ) * (10 : ℚ) ^ (exact mantissa exponent).exponent =
      mantissa * (2 : ℚ) ^ exponent := by
  unfold exact
  split
  next hnonneg =>
    obtain ⟨k, rfl⟩ := Int.eq_ofNat_of_zero_le hnonneg
    simp [Nat.shiftLeft_eq]
  next hneg =>
    obtain ⟨k, hk⟩ := Int.eq_ofNat_of_zero_le (a := -exponent) (by omega)
    obtain rfl : exponent = -(k : Int) := by omega
    have hten : (10 : ℚ) ^ k = 5 ^ k * 2 ^ k := by rw [← mul_pow]; norm_num
    simp only [neg_neg, Int.toNat_natCast, Nat.pow_eq, Nat.cast_mul, Nat.cast_pow,
      Nat.cast_ofNat, zpow_neg, zpow_natCast, hten, mul_inv]
    rw [mul_assoc, mul_inv_cancel_left₀ (by positivity)]

theorem ten_pow_eq (k : Nat) : 10 ^ k = 2 ^ k * 5 ^ k := by
  rw [← Nat.mul_pow]

theorem two_pow_le_ten_pow {k j : Nat} (hle : k ≤ j) : 2 ^ k ≤ 10 ^ j := by
  calc 2 ^ k ≤ 2 ^ j := Nat.pow_le_pow_right (by decide) hle
    _ ≤ 10 ^ j := Nat.pow_le_pow_left (by decide) j

theorem mul_five_pow_lt {n j : Nat} (hlt : n < 10 ^ j) (k : Nat) : n * 5 ^ k < 10 ^ (j + k) := by
  rw [Nat.pow_add]
  exact Nat.mul_lt_mul_of_lt_of_le hlt (Nat.pow_le_pow_left (by decide) k) (by positivity)

theorem two_pow_le_five_pow {k j : Nat} (hle : 19 * k ≤ 44 * j) : 2 ^ k ≤ 5 ^ j := by
  have hbase : 2 ^ 44 ≤ 5 ^ 19 := by decide
  rw [← Nat.pow_le_pow_iff_left (show 44 ≠ 0 by decide)]
  calc (2 ^ k) ^ 44 = (2 ^ 44) ^ k := Nat.pow_right_comm ..
    _ ≤ (5 ^ 19) ^ k := Nat.pow_le_pow_left hbase k
    _ = 5 ^ (19 * k) := (Nat.pow_mul ..).symm
    _ ≤ 5 ^ (44 * j) := Nat.pow_le_pow_right (by decide) hle
    _ = (5 ^ j) ^ 44 := by rw [Nat.mul_comm, Nat.pow_mul]

/-- A power of five that is written instead of a negative power of two has digits enough. -/
theorem decimalLength_five_pow {mantissa k : Nat} (hmantissa : 0 < mantissa) (hk : k ≤ 1074) :
    k < decimalLength (mantissa * 5 ^ k) + 324 := by
  have hlength := decimalLength_pos (mantissa * 5 ^ k)
  by_contra hshort
  obtain ⟨j, rfl⟩ := Nat.exists_eq_add_of_le (show 324 ≤ k by omega)
  have hfew : decimalLength (mantissa * 5 ^ (324 + j)) ≤ j := by omega
  rw [decimalLength_le_iff (by omega)] at hfew
  refine absurd hfew (Nat.not_lt.mpr ?_)
  calc 10 ^ j = 2 ^ j * 5 ^ j := ten_pow_eq j
    _ ≤ 5 ^ 324 * 5 ^ j := Nat.mul_le_mul_right _ (two_pow_le_five_pow (by omega))
    _ = 5 ^ (324 + j) := by rw [Nat.pow_add]
    _ ≤ mantissa * 5 ^ (324 + j) := Nat.le_mul_of_pos_left _ hmantissa

/-- The exact decimal of a double lies within the range in which digits are looked at. -/
theorem exact_range {mantissa : Nat} {exponent : Int} (canonical : IsCanonical mantissa exponent)
    (hmantissa : 0 < mantissa) :
    (decimalLength (exact mantissa exponent).digits : Int) + (exact mantissa exponent).exponent ≤
        309 ∧
      -324 < (decimalLength (exact mantissa exponent).digits : Int) +
        (exact mantissa exponent).exponent := by
  have hbound : mantissa < 2 ^ 53 := canonical.1
  have hleast : -1074 ≤ exponent := canonical.2.1
  have hgreatest : exponent ≤ 971 := canonical.2.2.1
  unfold exact
  split
  next hnonneg =>
    obtain ⟨k, rfl⟩ := Int.eq_ofNat_of_zero_le hnonneg
    have hlength := decimalLength_pos (mantissa <<< k)
    -- No double is as large as `2 ^ 1024`, which is `2 ^ 309 * 2 ^ 715`.
    have hle : decimalLength (mantissa <<< k) ≤ 309 := by
      rw [decimalLength_le_iff (by decide), Nat.shiftLeft_eq]
      have hsplit : 2 ^ 53 * 2 ^ k ≤ 2 ^ 309 * 2 ^ (k - 256) := by
        rw [← Nat.pow_add, ← Nat.pow_add]
        exact Nat.pow_le_pow_right (by decide) (by omega)
      calc mantissa * 2 ^ k < 2 ^ 53 * 2 ^ k := Nat.mul_lt_mul_of_pos_right hbound (by positivity)
        _ ≤ 2 ^ 309 * 2 ^ (k - 256) := hsplit
        _ ≤ 2 ^ 309 * 5 ^ 309 := Nat.mul_le_mul_left _ (two_pow_le_five_pow (by omega))
        _ = 10 ^ 309 := (ten_pow_eq 309).symm
    simp only [Int.toNat_natCast]
    omega
  next hneg =>
    obtain ⟨k, hk⟩ := Int.eq_ofNat_of_zero_le (a := -exponent) (by omega)
    obtain rfl : exponent = -(k : Int) := by omega
    have hle : decimalLength (mantissa * 5 ^ k) ≤ 309 + k := by
      rw [decimalLength_le_iff (by omega)]
      exact mul_five_pow_lt (Nat.lt_of_lt_of_le hbound (two_pow_le_ten_pow (by decide))) k
    -- The digits are those of a power of five, and the exponent counts as many places.
    have hlt := decimalLength_five_pow hmantissa (show k ≤ 1074 by omega)
    simp only [neg_neg, Int.toNat_natCast, Nat.pow_eq]
    omega

theorem toDouble_exact {mantissa : Nat} {exponent : Int}
    (canonical : IsCanonical mantissa exponent) (hmantissa : 0 < mantissa) :
    (exact mantissa exponent).toDouble = .finite false mantissa exponent canonical := by
  obtain ⟨hupper, hlower⟩ := exact_range canonical hmantissa
  have hvalue := exact_value mantissa exponent
  have hsign : (exact mantissa exponent).negative = false := by unfold exact; split <;> rfl
  have hdigits : (exact mantissa exponent).digits ≠ 0 := by
    intro hzero
    rw [hzero, Nat.cast_zero, zero_mul] at hvalue
    exact absurd hvalue.symm (by positivity)
  simp only [toDouble, hdigits, if_false, not_lt.mpr hupper, not_le.mpr hlower,
    scaleTen_eq_scaleBy, hsign]
  refine Double.ofFraction_eq_finite false (scaleBy_den_pos (by decide) _ _ Nat.one_pos)
    canonical ?_
  rw [ratio_scaleBy, Nat.cast_one, div_one, Nat.cast_ofNat, hvalue]

/-! ## The shortest decimal -/

theorem reads_of_readingBack? {target : Double} {num den : Nat} {place : Int} {d : Decimal}
    (hfound : readingBack? target num den place = some d) :
    d.negative = false ∧ d.toDouble = target := by
  simp only [readingBack?, Bool.and_eq_true, beq_iff_eq] at hfound
  split at hfound
  next hboth =>
    obtain rfl := Option.some.inj hfound
    split
    · exact ⟨rfl, hboth.1⟩
    · exact ⟨rfl, hboth.2⟩
  split at hfound
  next hlower =>
    obtain rfl := Option.some.inj hfound
    exact ⟨rfl, hlower⟩
  split at hfound
  next hupper =>
    obtain rfl := Option.some.inj hfound
    exact ⟨rfl, hupper⟩
  · simp at hfound

theorem reads_of_firstReadingBack? {target : Double} {num den fuel : Nat} {place : Int}
    {d : Decimal} (hfound : firstReadingBack? target num den fuel place = some d) :
    d.negative = false ∧ d.toDouble = target := by
  induction fuel generalizing place with
  | zero => simp [firstReadingBack?] at hfound
  | succ fuel ih =>
      rw [firstReadingBack?] at hfound
      split at hfound
      next candidate hcandidate =>
        obtain rfl := Option.some.inj hfound
        exact reads_of_readingBack? hcandidate
      · exact ih hfound

theorem reads_of_shortestMagnitude {mantissa : Nat} {exponent : Int}
    (canonical : IsCanonical mantissa exponent) (hmantissa : 0 < mantissa) :
    (shortestMagnitude mantissa exponent canonical).negative = false ∧
      (shortestMagnitude mantissa exponent canonical).toDouble =
        .finite false mantissa exponent canonical := by
  simp only [shortestMagnitude, negative_normalize, toDouble_normalize]
  cases hfound : firstReadingBack? (.finite false mantissa exponent canonical)
      (scaleTwo mantissa 1 exponent).1 (scaleTwo mantissa 1 exponent).2 17
      (decade (scaleTwo mantissa 1 exponent).1 (scaleTwo mantissa 1 exponent).2) with
  | some d => exact reads_of_firstReadingBack? hfound
  | none => exact ⟨by unfold exact; split <;> rfl, toDouble_exact canonical hmantissa⟩

end Decimal

/-- The shortest decimal of a finite double reads back as the double. -/
theorem Double.toDouble_shortest {x : Double} (hfinite : x.isFinite = true) :
    x.shortest.toDouble = x := by
  cases x with
  | nan | inf => simp [isFinite] at hfinite
  | finite negative mantissa exponent canonical =>
      rw [shortest]
      split
      next hzero =>
        subst hzero
        rw [Decimal.toDouble_zero, finite_zero]
      next hnonzero =>
        obtain ⟨hsign, hreads⟩ :=
          Decimal.reads_of_shortestMagnitude canonical (Nat.pos_of_ne_zero hnonzero)
        exact Decimal.toDouble_of_negative hsign hreads negative

end SciCalc
