import SciCalc.Proofs.Double.Bounds
import SciCalc.Proofs.Double.Signs

/-! # Whole doubles

Every integer up to the bound of the mantissas is a double, and rounding keeps it. So sums,
differences and products of such doubles are those of the integers, as long as they stay within the
bound. Only the sign of a zero is not settled by the integer.
-/

namespace SciCalc.Double

/-- An integer is its sign together with its size. -/
theorem signed_size (n : Int) :
    (if decide (n < 0) = true then -(n.natAbs : Int) else n.natAbs) = n := by
  simp only [decide_eq_true_eq]
  omega

theorem toInt?_eq_some_iff {x : Double} {n : Int} :
    x.toInt? = some n ↔ x.isFinite = true ∧ x.toRat = n := by
  cases x with
  | nan | inf negative => simp [toInt?, isFinite]
  | finite negative mantissa exponent canonical =>
      simp only [toInt?, isFinite, true_and]
      constructor
      · intro hint
        split at hint
        next hden =>
          obtain rfl := Option.some.inj hint
          exact (Rat.coe_int_num_of_den_eq_one hden).symm
        next => simp at hint
      · intro hvalue
        rw [hvalue, if_pos (Rat.den_intCast n), Rat.num_intCast]

theorem abs_toRat_of_toInt? {x : Double} {n : Int} (hx : x.toInt? = some n) :
    |x.toRat| = n.natAbs := by
  rw [(toInt?_eq_some_iff.mp hx).2, ← Int.cast_abs, ← Nat.cast_natAbs]

/-- The mantissa and the exponent of a whole double give the size of the integer. -/
theorem exists_finite_of_toInt? {x : Double} {n : Int} (hx : x.toInt? = some n) :
    ∃ (negative : Bool) (mantissa : Nat) (exponent : Int) (canonical : _),
      x = finite negative mantissa exponent canonical ∧
        (mantissa : ℚ) * (2 : ℚ) ^ exponent = n.natAbs := by
  have hsize := abs_toRat_of_toInt? hx
  cases x with
  | nan | inf negative => exact absurd (toInt?_eq_some_iff.mp hx).1 Bool.false_ne_true
  | finite negative mantissa exponent canonical =>
      rw [abs_toRat_finite] at hsize
      exact ⟨negative, mantissa, exponent, canonical, rfl, hsize⟩

theorem toInt?_zero (negative : Bool) : (zero negative).toInt? = some 0 := by
  cases negative <;> decide

/-- An integer up to the bound has a mantissa and an exponent. -/
theorem exists_canonical {n : Nat} (hn : n ≤ mantissaBound) :
    ∃ (mantissa : Nat) (exponent : Int), IsCanonical mantissa exponent ∧
      (mantissa : ℚ) * (2 : ℚ) ^ exponent = n := by
  rcases Nat.eq_zero_or_pos n with rfl | hpos
  · exact ⟨0, leastExponent, by decide, by simp⟩
  rcases hn.lt_or_eq with hless | rfl
  · -- The mantissa is filled up with zeros until it has 53 bits.
    have hlog : Nat.log 2 n < 53 := Nat.log_lt_of_lt_pow hpos.ne' hless
    obtain ⟨shift, hshift⟩ := Nat.exists_eq_add_of_le (show Nat.log 2 n ≤ 52 by omega)
    refine ⟨n * 2 ^ shift, -shift, ⟨?_, ?_, ?_, .inl ?_⟩, ?_⟩
    · calc n * 2 ^ shift < 2 ^ (Nat.log 2 n + 1) * 2 ^ shift :=
            Nat.mul_lt_mul_of_pos_right (Nat.lt_pow_succ_log_self Nat.one_lt_two n) (by positivity)
        _ = 2 ^ 53 := by rw [← Nat.pow_add]; congr 1; omega
    · change (-1074 : Int) ≤ -shift
      omega
    · change -(shift : Int) ≤ 971
      omega
    · calc 2 ^ 52 = 2 ^ Nat.log 2 n * 2 ^ shift := by rw [← Nat.pow_add, hshift]
        _ ≤ n * 2 ^ shift := Nat.mul_le_mul_right _ (Nat.pow_log_le_self 2 hpos.ne')
    · rw [zpow_neg, zpow_natCast, Nat.cast_mul, Nat.cast_pow, Nat.cast_ofNat]
      exact mul_inv_cancel_right₀ (by positivity) _
  · exact ⟨leastNormalMantissa, 1, by decide, by norm_num⟩

/-- A fraction that stands for an integer up to the bound is rounded to that integer. -/
theorem toInt?_ofFraction (negative : Bool) {num den n : Nat} (hden : 0 < den)
    (hvalue : (num : ℚ) / den = n) (hn : n ≤ mantissaBound) :
    (ofFraction negative num den).toInt? = some (if negative then -(n : Int) else n) := by
  obtain ⟨mantissa, exponent, canonical, hmantissa⟩ := exists_canonical hn
  rw [ofFraction_eq_finite negative hden canonical (hvalue.trans hmantissa.symm),
    toInt?_eq_some_iff, toRat_finite]
  refine ⟨rfl, ?_⟩
  cases negative with
  | false => simpa using hmantissa
  | true => simpa using hmantissa

theorem toInt?_ofNat {n : Nat} (hn : n ≤ mantissaBound) : (ofNat n).toInt? = some (n : Int) :=
  toInt?_ofFraction false Nat.one_pos (by rw [Nat.cast_one, div_one]) hn

/-- A multiple of a number over that number is the other factor. -/
theorem toInt?_ofFraction_mul {n : Int} {factor : Nat} (hfactor : 0 < factor)
    (hn : n.natAbs ≤ mantissaBound) :
    (ofFraction (n * factor < 0) (n * factor).natAbs factor).toInt? = some n := by
  have hvalue : ((n * factor).natAbs : ℚ) / factor = n.natAbs := by
    rw [Int.natAbs_mul, Int.natAbs_natCast, Nat.cast_mul]
    exact mul_div_cancel_right₀ _ (by exact_mod_cast hfactor.ne')
  have hsign : n * factor < 0 ↔ n < 0 := by
    have hfactor' : (0 : Int) < factor := Int.natCast_pos.mpr hfactor
    rw [mul_neg_iff]
    omega
  rw [toInt?_ofFraction _ hfactor hvalue hn, decide_eq_decide.mpr hsign, signed_size]

theorem toInt?_ofRat (negativeZero : Bool) {n : Int} (hn : n.natAbs ≤ mantissaBound) :
    (ofRat negativeZero n).toInt? = some n := by
  unfold ofRat
  rw [Rat.num_intCast, Rat.den_intCast]
  split
  next hzero =>
    rw [hzero]
    exact toInt?_zero negativeZero
  next hnonzero =>
    rw [toInt?_ofFraction _ Nat.one_pos (by rw [Nat.cast_one, div_one]) hn, signed_size]

theorem isNegative_of_toInt? {x : Double} {n : Int} (hx : x.toInt? = some n) (hn : n ≠ 0) :
    x.isNegative = decide (n < 0) := by
  obtain ⟨hfinite, hvalue⟩ := toInt?_eq_some_iff.mp hx
  cases x with
  | nan | inf negative => exact absurd hfinite Bool.false_ne_true
  | finite negative mantissa exponent canonical =>
      rw [toRat_finite] at hvalue
      cases negative with
      | false =>
          have hle : (0 : ℚ) ≤ n := by
            rw [← hvalue, if_neg Bool.false_ne_true]
            positivity
          have hle' : 0 ≤ n := by exact_mod_cast hle
          exact (decide_eq_false (not_lt.mpr hle')).symm
      | true =>
          have hle : (n : ℚ) ≤ 0 := by
            rw [← hvalue, if_pos rfl]
            exact mul_nonpos_of_nonpos_of_nonneg (neg_nonpos.mpr (Nat.cast_nonneg _))
              (by positivity)
          have hle' : n ≤ 0 := by exact_mod_cast hle
          exact (decide_eq_true (lt_of_le_of_ne hle' hn)).symm

/-- The sign of a whole double other than zero, together with its size, is the integer. -/
theorem signed_natAbs {x : Double} {n : Int} (hx : x.toInt? = some n) (hn : n ≠ 0) :
    (if x.isNegative then -(n.natAbs : Int) else n.natAbs) = n := by
  rw [isNegative_of_toInt? hx hn, signed_size]

theorem isZero_of_toInt? {x : Double} {n : Int} (hx : x.toInt? = some n) :
    x.isZero = decide (n = 0) := by
  obtain ⟨negative, mantissa, exponent, canonical, rfl, hsize⟩ := exists_finite_of_toInt? hx
  have hmantissa : mantissa = 0 ↔ n = 0 := by
    rw [← Int.natAbs_eq_zero, ← Nat.cast_eq_zero (R := ℚ) (n := n.natAbs), ← hsize, mul_eq_zero,
      Nat.cast_eq_zero]
    exact (or_iff_left (zpow_ne_zero exponent (by norm_num))).symm
  cases mantissa with
  | zero => exact (decide_eq_true (hmantissa.mp rfl)).symm
  | succ mantissa => exact (decide_eq_false (by simp [← hmantissa])).symm

/-- A whole double other than zero is the double of its integer. -/
theorem eq_ofInt_of_toInt? {x : Double} {n : Int} (hx : x.toInt? = some n) (hn : n ≠ 0) :
    x = ofInt n := by
  rw [ofInt, ← isNegative_of_toInt? hx hn]
  obtain ⟨negative, mantissa, exponent, canonical, rfl, hsize⟩ := exists_finite_of_toInt? hx
  refine (ofFraction_eq_finite negative Nat.one_pos canonical ?_).symm
  rw [Nat.cast_one, div_one, hsize]

/-! ## Operations -/

section Operations

variable {x y : Double} {m n : Int} (hx : x.toInt? = some m) (hy : y.toInt? = some n)

include hx hy

theorem toInt?_add (hsum : (m + n).natAbs ≤ mantissaBound) : (x.add y).toInt? = some (m + n) := by
  obtain ⟨hxFinite, hxValue⟩ := toInt?_eq_some_iff.mp hx
  obtain ⟨hyFinite, hyValue⟩ := toInt?_eq_some_iff.mp hy
  match x, y with
  | nan, _ | inf _, _ => exact absurd hxFinite Bool.false_ne_true
  | finite _ _ _ _, nan | finite _ _ _ _, inf _ => exact absurd hyFinite Bool.false_ne_true
  | finite _ _ _ _, finite _ _ _ _ =>
      rw [add, hxValue, hyValue, ← Int.cast_add]
      · exact toInt?_ofRat _ hsum
      all_goals exact nofun

theorem toInt?_sub (hdifference : (m - n).natAbs ≤ mantissaBound) :
    (x.sub y).toInt? = some (m - n) := by
  have hneg : y.neg.toInt? = some (-n) := by
    rw [toInt?_eq_some_iff] at hy ⊢
    rw [isFinite_neg, toRat_neg, hy.2, Int.cast_neg]
    exact ⟨hy.1, rfl⟩
  rw [Int.sub_eq_add_neg] at hdifference ⊢
  exact toInt?_add hx hneg hdifference

theorem toInt?_mul (hproduct : (m * n).natAbs ≤ mantissaBound) :
    (x.mul y).toInt? = some (m * n) := by
  obtain ⟨hxFinite, hxValue⟩ := toInt?_eq_some_iff.mp hx
  obtain ⟨hyFinite, hyValue⟩ := toInt?_eq_some_iff.mp hy
  match x, y with
  | nan, _ | inf _, _ => exact absurd hxFinite Bool.false_ne_true
  | finite _ _ _ _, nan | finite _ _ _ _, inf _ => exact absurd hyFinite Bool.false_ne_true
  | finite _ _ _ _, finite _ _ _ _ =>
      simp only [mul, hxValue, hyValue, ← Int.cast_mul]
      exact toInt?_ofRat _ hproduct

end Operations

end SciCalc.Double
