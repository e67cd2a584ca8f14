import SciCalc.Proofs.Decimal.Significant
import SciCalc.Proofs.Decimal.WholeNumbers

/-! # Decimals of few digits

Doubles hold more digits than a decimal of few digits has. So different decimals of few digits are
read as different doubles, and the shortest decimal of the double that such a decimal is read as is
the decimal itself, but for zeros at its end.
-/

namespace SciCalc.Decimal

/-! ## Zeros at the end -/

/-- Stripping keeps the number, and takes all the zeros at the end. -/
theorem stripZeros_spec {fuel digits : ℕ} (exponent : ℤ) (hpos : 0 < digits)
    (hfuel : digits < 10 ^ fuel) :
    ((stripZeros fuel digits exponent).1 : ℚ) * (10 : ℚ) ^ (stripZeros fuel digits exponent).2 =
        digits * (10 : ℚ) ^ exponent ∧
      (stripZeros fuel digits exponent).1 % 10 ≠ 0 ∧
        (stripZeros fuel digits exponent).1 ≤ digits := by
  induction fuel generalizing digits exponent with
  | zero => exact absurd hfuel (by omega)
  | succ fuel ih =>
      rw [stripZeros]
      split
      next hzero =>
        obtain ⟨fewer, rfl⟩ := Nat.dvd_of_mod_eq_zero hzero
        rw [Nat.mul_div_cancel_left fewer (by decide)]
        rw [Nat.pow_succ] at hfuel
        obtain ⟨hvalue, hlast, hle⟩ := ih (exponent + 1)
          (show 0 < fewer by omega) (show fewer < 10 ^ fuel by omega)
        refine ⟨?_, hlast, by omega⟩
        rw [hvalue, zpow_add_one₀ (by norm_num)]
        push_cast
        ring
      next hlast => exact ⟨rfl, hlast, le_rfl⟩

section Normalize

variable {d : Decimal} (hdigits : d.digits ≠ 0)

include hdigits

/-- Without the zeros at its end, a decimal stands for the same number. -/
theorem normalize_spec :
    d.normalize.size = d.size ∧ d.normalize.digits % 10 ≠ 0 ∧ d.normalize.digits ≤ d.digits := by
  rw [normalize, if_neg hdigits]
  exact stripZeros_spec d.exponent (Nat.pos_of_ne_zero hdigits)
    ((decimalLength_le_iff (decimalLength_pos _)).mp le_rfl)

end Normalize

/-- Digits without zeros at the end are determined by the number that they stand for. -/
theorem digits_eq_of_value_eq {m n : ℕ} {a b : ℤ} (hm : m % 10 ≠ 0) (hn : n % 10 ≠ 0)
    (hvalue : (m : ℚ) * (10 : ℚ) ^ a = n * (10 : ℚ) ^ b) : m = n ∧ a = b := by
  wlog hle : a ≤ b generalizing m n a b
  · obtain ⟨hdigits, hexponent⟩ := this hn hm hvalue.symm (le_of_not_ge hle)
    exact ⟨hdigits.symm, hexponent.symm⟩
  obtain ⟨k, rfl⟩ := Int.le.dest hle
  have hmul : m = n * 10 ^ k := by
    rw [zpow_add₀ (by norm_num), zpow_natCast, mul_left_comm, mul_comm] at hvalue
    exact_mod_cast mul_left_cancel₀ (by positivity) hvalue
  cases k with
  | zero => exact ⟨by simpa using hmul, by simp⟩
  | succ k =>
      rw [Nat.pow_succ, ← Nat.mul_assoc] at hmul
      omega

/-- Decimals of the same sign and the same number have the same normal form. -/
theorem normalize_eq_of_size_eq {c d : Decimal} (hdigits : d.digits ≠ 0)
    (hsign : c.negative = d.negative) (hsize : c.size = d.size) : c.normalize = d.normalize := by
  have hdigits' : c.digits ≠ 0 := by
    intro hzero
    rw [size, size, hzero, Nat.cast_zero, zero_mul, eq_comm, mul_eq_zero] at hsize
    exact hsize.elim (fun h => hdigits (by exact_mod_cast h)) (zpow_ne_zero _ (by norm_num))
  obtain ⟨hvalue, hlast, -⟩ := normalize_spec hdigits
  obtain ⟨hvalue', hlast', -⟩ := normalize_spec hdigits'
  have hequal := digits_eq_of_value_eq hlast' hlast (hvalue'.trans (hsize.trans hvalue.symm))
  have hnegative : c.normalize.negative = d.normalize.negative := by
    rw [negative_normalize, negative_normalize, hsign]
  cases hc : c.normalize
  cases hd : d.normalize
  simp_all

/-- A decimal is a multiple of each power of ten up to its exponent. -/
theorem exists_size_eq {d : Decimal} {place : ℤ} (hle : place ≤ d.exponent) :
    ∃ k : ℕ, d.size = k * (10 : ℚ) ^ place := by
  obtain ⟨k, hk⟩ := Int.le.dest hle
  refine ⟨d.digits * 10 ^ k, ?_⟩
  rw [size, ← hk, zpow_add₀ (by norm_num), zpow_natCast]
  push_cast
  ring

/-! ## Reading back -/

/-- The double is found at a place where a decimal next to it reads back. -/
theorem exists_readingBack?_of_near {target : Double} {num den n : ℕ} {place : ℤ} (hden : 0 < den)
    (hnear : |(num : ℚ) / den - n * (10 : ℚ) ^ place| < (10 : ℚ) ^ place)
    (hreads : toDouble ⟨false, n, place⟩ = target) :
    ∃ d, readingBack? target num den place = some d := by
  have hdenPos := scaleBy_den_pos (show 0 < 10 by decide) num (-place) hden
  have hratio := ratio_scaleBy 10 num den (-place)
  have hscaled : ((num : ℚ) / den) * (10 : ℚ) ^ (-place) * (10 : ℚ) ^ place = num / den := by
    rw [mul_assoc, ← zpow_add₀ (by norm_num), neg_add_cancel, zpow_zero, mul_one]
  rw [Nat.cast_ofNat] at hratio
  rw [← scaleTen_eq_scaleBy] at hdenPos hratio
  rw [← hscaled, ← hratio, ← sub_mul, abs_mul, abs_of_pos (by positivity : (0 : ℚ) < 10 ^ place),
    mul_lt_iff_lt_one_left (by positivity)] at hnear
  generalize hnum : (scaleTen num den (-place)).1 = scaledNum at hnear
  generalize hden' : (scaleTen num den (-place)).2 = scaledDen at hdenPos hnear
  -- One of the two integers next to the scaled number is the wanted one.
  have hquotient : scaledNum / scaledDen = n ∨ scaledNum / scaledDen + 1 = n := by
    have hpos : (0 : ℚ) < scaledDen := by exact_mod_cast hdenPos
    obtain ⟨hlower, hupper⟩ := abs_lt.mp hnear
    have hless : (scaledNum : ℚ) / scaledDen < (n + 1 : ℕ) := by push_cast; linarith
    have hmore : (n : ℚ) < (scaledNum : ℚ) / scaledDen + 1 := by linarith
    rw [div_lt_iff₀ hpos] at hless
    rw [← sub_lt_iff_lt_add, lt_div_iff₀ hpos, sub_mul, one_mul, sub_lt_iff_lt_add] at hmore
    have hless' : scaledNum < (n + 1) * scaledDen := by exact_mod_cast hless
    have hmore' : n * scaledDen < scaledNum + scaledDen := by exact_mod_cast hmore
    have hquotientLess : scaledNum / scaledDen < n + 1 := Nat.div_lt_of_lt_mul (by rwa [Nat.mul_comm])
    have hquotientMore : n < scaledNum / scaledDen + 2 := by
      have hfloor := Nat.lt_mul_div_succ scaledNum hdenPos
      refine Nat.lt_of_mul_lt_mul_right (a := scaledDen) ?_
      calc n * scaledDen < scaledNum + scaledDen := hmore'
        _ ≤ scaledDen * (scaledNum / scaledDen + 1) + scaledDen := Nat.add_le_add_right hfloor.le _
        _ = (scaledNum / scaledDen + 2) * scaledDen := by ring
    omega
  simp only [readingBack?, hnum, hden']
  rcases hquotient with hlower | hupper
  · rw [hlower, hreads, beq_self_eq_true, Bool.true_and, if_pos rfl]
    split
    · split <;> exact ⟨_, rfl⟩
    · exact ⟨_, rfl⟩
  · rw [hupper, hreads, beq_self_eq_true, Bool.and_true, if_pos rfl]
    split
    · split <;> exact ⟨_, rfl⟩
    · exact ⟨_, rfl⟩

/-! ## The shortest decimal -/

/-- A decimal of few digits is next to the double that it is read as. -/
theorem abs_sub_size_le {d : Decimal} {x : Double} (hreads : d.toDouble = x)
    (hfinite : x.isFinite = true) (hdigits : d.digits ≠ 0) :
    |(|x.toRat| - d.size)| ≤
      max (d.size * (2 : ℚ) ^ (-53 : Int)) ((2 : ℚ) ^ (-1075 : Int)) := by
  subst hreads
  have hnearest := isNearest_toDouble hfinite
  have hsize := d.abs_toRat
  have hpos : 0 < d.size :=
    mul_pos (by exact_mod_cast Nat.pos_of_ne_zero hdigits) (by positivity)
  rw [← hsize]
  calc |(|d.toDouble.toRat| - |d.toRat|)| ≤ |d.toDouble.toRat - d.toRat| :=
        abs_abs_sub_abs_le _ _
    _ ≤ Double.spacing d.toRat / 2 := hnearest.error
    _ ≤ max (|d.toRat| * (2 : ℚ) ^ (-52 : Int)) ((2 : ℚ) ^ leastExponent) / 2 := by
        gcongr
        exact Double.spacing_le_max (abs_pos.mp (hsize ▸ hpos))
    _ = max (|d.toRat| * (2 : ℚ) ^ (-53 : Int)) ((2 : ℚ) ^ (-1075 : Int)) := by
        rw [← max_div_div_right (by norm_num), Double.least_eq_two_mul,
          mul_div_cancel_left₀ _ (by norm_num)]
        congr 1
        norm_num
        ring

/-- Half the least double is a small part of a number that is not as small as subnormal doubles. -/
theorem half_least_le {size : ℚ} (hnormal : (2 : ℚ) ^ (-1022 : Int) ≤ size) :
    (2 : ℚ) ^ (-1075 : Int) ≤ size * (2 : ℚ) ^ (-53 : Int) := by
  calc (2 : ℚ) ^ (-1075 : Int) = (2 : ℚ) ^ (-1022 : Int) * (2 : ℚ) ^ (-53 : Int) := by
        rw [← zpow_add₀ (by norm_num)]
        rfl
    _ ≤ size * (2 : ℚ) ^ (-53 : Int) := mul_le_mul_of_nonneg_right hnormal (by positivity)

theorem abs_sub_size_le_of_normal {d : Decimal} {x : Double} (hreads : d.toDouble = x)
    (hfinite : x.isFinite = true) (hdigits : d.digits ≠ 0)
    (hnormal : (2 : ℚ) ^ (-1022 : Int) ≤ d.size) :
    |(|x.toRat| - d.size)| ≤ d.size * (2 : ℚ) ^ (-53 : Int) :=
  (abs_sub_size_le hreads hfinite hdigits).trans (max_le le_rfl (half_least_le hnormal))

/-- Decimals of few digits that are read as the same double stand for the same number. -/
theorem size_eq_of_toDouble_eq {c d : Decimal} {x : Double} {place : ℤ} (hc : c.toDouble = x)
    (hd : d.toDouble = x) (hfinite : x.isFinite = true) (hcDigits : c.digits ≠ 0)
    (hdDigits : d.digits ≠ 0) (hnormal : (2 : ℚ) ^ (-1022 : Int) ≤ d.size)
    (hcPlace : place ≤ c.exponent) (hdPlace : place ≤ d.exponent)
    (hfew : |x.toRat| < (10 : ℚ) ^ (place + 15)) : c.size = d.size := by
  have hcNear := abs_sub_size_le hc hfinite hcDigits
  have hdNear := abs_sub_size_le_of_normal hd hfinite hdDigits hnormal
  have hleast := half_least_le hnormal
  obtain ⟨k, hk⟩ := exists_size_eq hcPlace
  obtain ⟨l, hl⟩ := exists_size_eq hdPlace
  have hcNonneg := c.size_nonneg
  have hdNonneg := d.size_nonneg
  rw [zpow_add₀ (by norm_num)] at hfew
  have hunit : (0 : ℚ) < (10 : ℚ) ^ place := by positivity
  generalize (10 : ℚ) ^ place = unit at hk hl hfew hunit
  generalize |x.toRat| = size at hcNear hdNear hfew
  generalize (2 : ℚ) ^ (-1075 : Int) = least at hcNear hleast
  -- Both lie within a small part of a unit around the double, and both are multiples of the unit.
  have hcNear' : |size - c.size| ≤ (c.size + d.size) * (2 : ℚ) ^ (-53 : Int) := by
    refine hcNear.trans (max_le ?_ (hleast.trans ?_))
    · exact mul_le_mul_of_nonneg_right (by linarith) (by positivity)
    · exact mul_le_mul_of_nonneg_right (by linarith) (by positivity)
  have hdNear' : |size - d.size| ≤ (c.size + d.size) * (2 : ℚ) ^ (-53 : Int) :=
    hdNear.trans (mul_le_mul_of_nonneg_right (by linarith) (by positivity))
  rw [abs_le] at hcNear' hdNear'
  norm_num at hcNear' hdNear' hfew
  have hless : k < l + 1 ∧ l < k + 1 := by
    have hk' : (k : ℚ) * unit < (l + 1 : ℕ) * unit := by
      push_cast
      linarith
    have hl' : (l : ℚ) * unit < (k + 1 : ℕ) * unit := by
      push_cast
      linarith
    exact ⟨by exact_mod_cast lt_of_mul_lt_mul_right hk' hunit.le,
      by exact_mod_cast lt_of_mul_lt_mul_right hl' hunit.le⟩
  rw [hk, hl, show k = l by omega]

/-- What is read as a double other than zero has digits. -/
theorem digits_ne_zero_of_toDouble {d : Decimal} (hread : d.toDouble.toRat ≠ 0) : d.digits ≠ 0 := by
  intro hzero
  refine hread ?_
  simp only [toDouble, hzero, if_true]
  exact Double.toRat_zero _

/-- What is close to a decimal of few digits has few digits from some place on at which the decimal
is still an integer. -/
theorem exists_place {d : Decimal} (hdigits : d.digits ≠ 0) (hfew : d.digits < 10 ^ 14) {size : ℚ}
    (hpos : 0 < size) (hnear : |size - d.size| ≤ d.size * (2 : ℚ) ^ (-53 : Int)) :
    ∃ (place : ℤ) (k : ℕ), place ≤ d.normalize.exponent ∧ place ≤ Int.log 10 size ∧
      d.size = k * (10 : ℚ) ^ place ∧ size < (10 : ℚ) ^ (place + 15) := by
  obtain ⟨hsize, -, hle⟩ := normalize_spec hdigits
  have hupper := Int.lt_zpow_succ_log_self (b := 10) (by norm_num) size
  rw [Nat.cast_ofNat] at hupper
  obtain ⟨k, hk⟩ := exists_size_eq (min_le_left d.normalize.exponent (Int.log 10 size))
  refine ⟨_, k, min_le_left _ _, min_le_right _ _, hsize ▸ hk, ?_⟩
  rcases min_choice d.normalize.exponent (Int.log 10 size) with hmin | hmin
  · have hbound : d.size < (10 : ℚ) ^ 14 * (10 : ℚ) ^ d.normalize.exponent := by
      rw [← hsize]
      refine mul_lt_mul_of_pos_right ?_ (by positivity)
      exact_mod_cast hle.trans_lt hfew
    have hclose := (abs_le.mp hnear).2
    rw [hmin, zpow_add₀ (by norm_num)]
    norm_num at hbound hclose ⊢
    linarith
  · rw [hmin]
    exact hupper.trans_le (zpow_le_zpow_right₀ (by norm_num) (by omega))

/-- The shortest decimal of what a decimal of few digits is read as. -/
theorem shortestMagnitude_eq {d : Decimal} (hsign : d.negative = false) (hdigits : d.digits ≠ 0)
    (hfew : d.digits < 10 ^ 14) (hnormal : (2 : ℚ) ^ (-1022 : Int) ≤ d.size) {mantissa : Nat}
    {exponent : Int} {canonical : IsCanonical mantissa exponent}
    (hreads : d.toDouble = .finite false mantissa exponent canonical) :
    shortestMagnitude mantissa exponent canonical = d.normalize := by
  obtain ⟨hsize, hlast, -⟩ := normalize_spec hdigits
  have hnear := abs_sub_size_le_of_normal hreads rfl hdigits hnormal
  have hvalue := Double.abs_toRat_finite false mantissa exponent canonical
  have hden := scaleBy_den_pos Nat.two_pos mantissa exponent Nat.one_pos
  have hratio := ratio_scaleBy 2 mantissa 1 exponent
  rw [Nat.cast_one, div_one, Nat.cast_ofNat, ← hvalue] at hratio
  have hpos : 0 < d.size := lt_of_lt_of_le (by positivity) hnormal
  have hsizePos : 0 < |(Double.finite false mantissa exponent canonical).toRat| := by
    have hclose := (abs_le.mp hnear).1
    norm_num at hclose
    linarith
  have hnum : 0 < (scaleBy 2 mantissa 1 exponent).1 := by
    refine Nat.pos_of_ne_zero fun hzero => ?_
    rw [hzero, Nat.cast_zero, zero_div] at hratio
    exact hsizePos.ne hratio
  obtain ⟨place, k, hplace, hplaceLog, hk, hroom⟩ := exists_place hdigits hfew hsizePos hnear
  have hlower := Int.zpow_log_le_self (b := 10) (by norm_num) hsizePos
  rw [Nat.cast_ofNat] at hlower
  have hshort := (zpow_lt_zpow_iff_right₀ (by norm_num : (1 : ℚ) < 10)).mp (hlower.trans_lt hroom)
  -- At this place the decimal reads back, so a shortest one is found there or earlier.
  have hreadsThere : toDouble ⟨false, k, place⟩ = .finite false mantissa exponent canonical := by
    have hnormalize : normalize ⟨false, k, place⟩ = d.normalize :=
      normalize_eq_of_size_eq hdigits hsign.symm hk.symm
    rw [← toDouble_normalize, hnormalize, toDouble_normalize, hreads]
  have hnearThere : |((scaleBy 2 mantissa 1 exponent).1 : ℚ) / (scaleBy 2 mantissa 1 exponent).2 -
      k * (10 : ℚ) ^ place| < (10 : ℚ) ^ place := by
    rw [hratio, ← hk]
    refine hnear.trans_lt ?_
    have hclose := (abs_le.mp hnear).1
    rw [zpow_add₀ (by norm_num)] at hroom
    norm_num at hroom hclose ⊢
    linarith
  obtain ⟨c, hfound, hexponent⟩ := exists_firstReadingBack?
    (exists_readingBack?_of_near hden hnearThere hreadsThere) hplaceLog
    (show Int.log 10 _ < place + (17 : ℕ) by push_cast; omega)
  obtain ⟨hcSign, hcReads⟩ := reads_of_firstReadingBack? hfound
  have hcSize : c.size = d.normalize.size :=
    size_eq_of_toDouble_eq hcReads ((toDouble_normalize d).trans hreads) rfl
      (digits_ne_zero_of_toDouble (hcReads ▸ abs_pos.mp hsizePos))
      (fun hzero => hlast (by rw [hzero])) (by rwa [hsize]) hexponent hplace hroom
  simp only [shortestMagnitude, scaleTwo_eq_scaleBy, decade_eq_log hnum hden, hratio, hfound,
    Option.getD_some]
  exact normalize_eq_of_size_eq hdigits (hcSign.trans hsign.symm) (hcSize.trans hsize)

/-- A decimal of few digits is the shortest decimal of the double that it is read as, but for zeros
at its end. -/
theorem shortest_toDouble {d : Decimal} (hdigits : d.digits ≠ 0) (hfew : d.digits < 10 ^ 14)
    (hnormal : (2 : ℚ) ^ (-1022 : Int) ≤ d.size) (hfinite : d.toDouble.isFinite = true) :
    d.toDouble.shortest = d.normalize := by
  obtain ⟨negative, digits, place⟩ := d
  have hmagnitude : (toDouble ⟨false, digits, place⟩).isFinite = true := by
    cases negative with
    | false => exact hfinite
    | true => rwa [← Bool.not_true, ← neg_toDouble, Double.isFinite_neg]
  have hsign := isNegative_toDouble ⟨false, digits, place⟩
  cases hreads : toDouble ⟨false, digits, place⟩ with
  | nan | inf sign =>
      rw [hreads] at hmagnitude
      exact absurd hmagnitude Bool.false_ne_true
  | finite sign mantissa exponent canonical =>
      rw [hreads] at hsign
      obtain rfl : sign = false := hsign
      have hpositive := shortestMagnitude_eq (d := ⟨false, digits, place⟩) rfl hdigits hfew hnormal
        hreads
      have hsigned := toDouble_of_negative rfl hreads negative
      have hmantissa : mantissa ≠ 0 := by
        rintro rfl
        have hnear := abs_sub_size_le_of_normal (d := ⟨false, digits, place⟩) hreads rfl hdigits
          hnormal
        have hpos : 0 < (⟨false, digits, place⟩ : Decimal).size :=
          lt_of_lt_of_le (by positivity) hnormal
        rw [Double.abs_toRat_finite, Nat.cast_zero, zero_mul, zero_sub, abs_neg,
          abs_of_pos hpos] at hnear
        norm_num at hnear
        linarith
      simp only at hsigned
      rw [hsigned, Double.shortest, if_neg hmantissa, hpositive]
      simp only [normalize]
      split <;> rfl

end SciCalc.Decimal
