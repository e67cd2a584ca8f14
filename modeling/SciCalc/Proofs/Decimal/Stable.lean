import SciCalc.Proofs.Decimal.Significant

/-! # Significant digits outlive the doubles

A number that is rounded to significant digits does not change when it is rounded again. Nor does it
when it is read as a double first: the double is so near that its digits are the same ones. Only the
least doubles are too far from each other for this. But there the number is the rounded form of a
double, and that is the double that it is read as.
-/

namespace SciCalc

/-! ## Rounding again -/

section Fixed

variable {q : ℚ} {count : ℕ}

theorem significant_eq_of_abs_sub_lt {place k : ℤ} (hplace : significantPlace count q = place)
    (hnear : |q - k * (10 : ℚ) ^ place| < (10 : ℚ) ^ place / 2) :
    significant count q = k * (10 : ℚ) ^ place := by
  have hunit : (0 : ℚ) < (10 : ℚ) ^ place := by positivity
  have hscaled : |(k : ℚ) - q / (10 : ℚ) ^ place| < 1 / 2 := by
    rw [abs_sub_comm, abs_mul_sub hunit] at hnear
    exact lt_of_mul_lt_mul_right (hnear.trans_eq (one_div_mul_eq_div 2 _).symm) hunit.le
  rw [significant, hplace, nearestEven_eq_of_abs_sub_lt hscaled]

/-- A multiple of the last significant place is not changed. -/
theorem significant_of_multiple {place k : ℤ} (hplace : significantPlace count q ≤ place)
    (hq : q = k * (10 : ℚ) ^ place) : significant count q = q := by
  obtain ⟨more, hmore⟩ := Int.le.dest hplace
  generalize hunit : significantPlace count q = unit at hmore
  have hmultiple : q = ((k * 10 ^ more : ℤ) : ℚ) * (10 : ℚ) ^ unit := by
    rw [hq, ← hmore, zpow_add₀ (by norm_num), zpow_natCast]
    push_cast
    ring
  conv_rhs => rw [hmultiple]
  refine significant_eq_of_abs_sub_lt hunit ?_
  rw [← hmultiple, sub_self, abs_zero]
  positivity

/-- The rounded number has its last digit at the place where the number has it, or at the next. -/
theorem significantPlace_significant (hcount : 0 < count) (hpos : 0 < q) :
    significantPlace count (significant count q) = significantPlace count q ∨
      significant count q = (10 : ℚ) ^ (Int.log 10 q + 1) ∧
        significantPlace count (significant count q) = significantPlace count q + 1 := by
  obtain ⟨hlower, hupper⟩ := significant_between hpos count hcount
  have hpositive : 0 < significant count q := lt_of_lt_of_le (by positivity) hlower
  rw [significantPlace_of_pos hpos, significantPlace_of_pos hpositive]
  rcases hupper.lt_or_eq with hless | hequal
  · have hlog : Int.log 10 (significant count q) = Int.log 10 q :=
      log_eq_of_zpow_le_of_lt_zpow (by decide) (by exact_mod_cast hlower) (by exact_mod_cast hless)
    exact .inl (by rw [hlog])
  · refine .inr ⟨hequal, ?_⟩
    have hlog : Int.log 10 ((10 : ℚ) ^ (Int.log 10 q + 1)) = Int.log 10 q + 1 :=
      Int.log_zpow (by decide) _
    rw [hequal, hlog]
    ring

/-- A rounded number is not changed when it is rounded again. -/
theorem significant_significant (hcount : 0 < count) (q : ℚ) :
    significant count (significant count q) = significant count q := by
  have hpositive : ∀ {q : ℚ}, 0 < q →
      significant count (significant count q) = significant count q := by
    intro q hpos
    rcases significantPlace_significant hcount hpos with hplace | ⟨hequal, hplace⟩
    · exact significant_of_multiple hplace.le rfl
    · have hmultiple : significant count q = ((1 : ℤ) : ℚ) * (10 : ℚ) ^ (Int.log 10 q + 1) := by
        rw [hequal, Int.cast_one, one_mul]
      refine significant_of_multiple ?_ hmultiple
      rw [hplace, significantPlace_of_pos hpos]
      omega
  rcases lt_trichotomy q 0 with hneg | rfl | hpos
  · have hsame := hpositive (neg_pos.mpr hneg)
    rwa [significant_neg, significant_neg, neg_inj] at hsame
  · rw [significant_zero, significant_zero]
  · exact hpositive hpos

end Fixed

/-! ## Near a rounded number -/

section Near

variable {value q : ℚ} {count : ℕ} (hcount : 0 < count) (hpos : 0 < value)
  (hfixed : significant count value = value)

include hpos hfixed

/-- Near a rounded number there is no power of ten above it. -/
theorem lt_zpow_of_near (hnear : |q - value| < (10 : ℚ) ^ significantPlace count value / 2) :
    q < (10 : ℚ) ^ (Int.log 10 value + 1) := by
  have hlog : Int.log 10 value + 1 = count + significantPlace count value := by
    rw [significantPlace_of_pos hpos]
    ring
  have hupper := Int.lt_zpow_succ_log_self (b := 10) (by norm_num) value
  rw [Nat.cast_ofNat, hlog, zpow_add₀ (by norm_num), zpow_natCast] at hupper
  rw [significant] at hfixed
  rw [hlog, zpow_add₀ (by norm_num), zpow_natCast]
  generalize nearestEven (value / (10 : ℚ) ^ significantPlace count value) = n at hfixed
  have hunit : (0 : ℚ) < (10 : ℚ) ^ significantPlace count value := by positivity
  generalize (10 : ℚ) ^ significantPlace count value = unit at hfixed hnear hupper hunit ⊢
  rw [← hfixed] at hupper hnear
  have hless : n < 10 ^ count := by exact_mod_cast lt_of_mul_lt_mul_right hupper hunit.le
  have hcast : (n : ℚ) + 1 ≤ (10 : ℚ) ^ count := by exact_mod_cast hless
  calc q ≤ n * unit + unit / 2 := by linarith [(abs_lt.mp hnear).2]
    _ < (n + 1) * unit := by linarith
    _ ≤ (10 : ℚ) ^ count * unit := by gcongr

/-- Where its digits stand at the same places, a number near a rounded number has the same ones. -/
theorem significant_eq_of_near_above
    (hnear : |q - value| < (10 : ℚ) ^ significantPlace count value / 2)
    (hle : (10 : ℚ) ^ Int.log 10 value ≤ q) : significant count q = value := by
  have hupper := lt_zpow_of_near hpos hfixed hnear
  have hqpos : 0 < q := lt_of_lt_of_le (by positivity) hle
  have hlog : Int.log 10 q = Int.log 10 value :=
    log_eq_of_zpow_le_of_lt_zpow (by decide) (by exact_mod_cast hle) (by exact_mod_cast hupper)
  have hplace : significantPlace count q = significantPlace count value := by
    rw [significantPlace_of_pos hqpos, significantPlace_of_pos hpos, hlog]
  rw [significant] at hfixed
  conv_rhs => rw [← hfixed]
  exact significant_eq_of_abs_sub_lt hplace (by rwa [hfixed])

include hcount

/-- Below a power of ten the digits stand one place further to the right. -/
theorem significant_eq_of_near_below
    (hnear : |q - value| < (10 : ℚ) ^ significantPlace count value / 20)
    (hless : q < (10 : ℚ) ^ Int.log 10 value) : significant count q = value := by
  have hplace := significantPlace_of_pos hpos count
  have hlower := Int.zpow_log_le_self (b := 10) (by norm_num) hpos
  rw [Nat.cast_ofNat] at hlower
  rw [significant] at hfixed
  generalize nearestEven (value / (10 : ℚ) ^ significantPlace count value) = n at hfixed
  generalize significantPlace count value = place at hplace hfixed hnear
  have hpower : (10 : ℚ) ^ place ≤ (10 : ℚ) ^ Int.log 10 value :=
    zpow_le_zpow_right₀ (by norm_num) (by omega)
  have hmore : (10 : ℚ) ^ (Int.log 10 value - 1) ≤ q := by
    rw [zpow_sub_one₀ (by norm_num)]
    have hdistance := (abs_lt.mp hnear).1
    linarith
  have hqpos : 0 < q := lt_of_lt_of_le (by positivity) hmore
  have hqlog : Int.log 10 q = Int.log 10 value - 1 :=
    log_eq_of_zpow_le_of_lt_zpow (by decide) (by exact_mod_cast hmore)
      (by rw [sub_add_cancel]; exact_mod_cast hless)
  have hshift : (10 : ℚ) ^ place = 10 * (10 : ℚ) ^ (place - 1) := by
    rw [← zpow_one_add₀ (by norm_num)]
    congr 1
    ring
  have hvalue : value = ((n * 10 : ℤ) : ℚ) * (10 : ℚ) ^ (place - 1) := by
    rw [← hfixed, hshift]
    push_cast
    ring
  rw [hshift, hvalue] at hnear
  rw [hvalue]
  refine significant_eq_of_abs_sub_lt ?_ (hnear.trans_eq (by ring))
  rw [significantPlace_of_pos hqpos, hqlog, hplace]
  ring

/-- Only a power of ten itself is near to a number below it. -/
theorem eq_zpow_of_near_below
    (hnear : |q - value| < (10 : ℚ) ^ significantPlace count value)
    (hless : q < (10 : ℚ) ^ Int.log 10 value) : value = (10 : ℚ) ^ Int.log 10 value := by
  have hlog : Int.log 10 value = (count - 1 : ℕ) + significantPlace count value := by
    rw [significantPlace_of_pos hpos]
    omega
  have hlower := Int.zpow_log_le_self (b := 10) (by norm_num) hpos
  rw [Nat.cast_ofNat] at hlower
  have hunit : (0 : ℚ) < (10 : ℚ) ^ significantPlace count value := by positivity
  rw [significant] at hfixed
  rw [hlog, zpow_add₀ (by norm_num), zpow_natCast] at hlower hless ⊢
  generalize nearestEven (value / (10 : ℚ) ^ significantPlace count value) = n at hfixed
  generalize (10 : ℚ) ^ significantPlace count value = unit at hfixed hnear hlower hless hunit ⊢
  rw [← hfixed] at hlower hnear ⊢
  have hleast : 10 ^ (count - 1) ≤ n := by exact_mod_cast le_of_mul_le_mul_right hlower hunit
  have hmost : n < 10 ^ (count - 1) + 1 := by
    have hscaled : (n : ℚ) * unit < (10 ^ (count - 1) + 1) * unit := by
      linarith [(abs_lt.mp hnear).1]
    exact_mod_cast lt_of_mul_lt_mul_right hscaled hunit.le
  rw [show n = 10 ^ (count - 1) by omega, Int.cast_pow, Int.cast_ofNat]

/-- A number has the same significant digits as a rounded number that it is near. Below a power of
ten, where the digits stand one place further to the right, it must be nearer. -/
theorem significant_eq_of_near
    (hnear : |q - value| < (10 : ℚ) ^ significantPlace count value / 2)
    (hbelow : (10 : ℚ) ^ Int.log 10 value ≤ q ∨
      |q - value| < (10 : ℚ) ^ significantPlace count value / 20) :
    significant count q = value := by
  rcases le_or_gt ((10 : ℚ) ^ Int.log 10 value) q with hle | hless
  · exact significant_eq_of_near_above hpos hfixed hnear hle
  · exact significant_eq_of_near_below hcount hpos hfixed (hbelow.resolve_left (not_le.mpr hless))
      hless

end Near

/-! ## Nearest doubles -/

namespace Double

/-- All finite doubles are multiples of the least one. -/
theorem exists_multiple_least {x : Double} (hx : x.isFinite = true) :
    ∃ k : ℤ, x.toRat = k * (2 : ℚ) ^ leastExponent := by
  cases x with
  | nan | inf negative => exact absurd hx Bool.false_ne_true
  | finite negative mantissa exponent canonical =>
      exact exists_multiple_of_le negative mantissa canonical canonical.2.1

theorem eq_of_abs_sub_lt {x y : Double} (hx : x.isFinite = true) (hy : y.isFinite = true)
    (hnear : |x.toRat - y.toRat| < (2 : ℚ) ^ leastExponent) : x.toRat = y.toRat := by
  obtain ⟨j, hj⟩ := exists_multiple_least hx
  obtain ⟨k, hk⟩ := exists_multiple_least hy
  have hunit : (0 : ℚ) < (2 : ℚ) ^ leastExponent := by positivity
  rw [hj, hk, ← sub_mul, abs_mul, abs_of_pos hunit, mul_lt_iff_lt_one_left hunit] at hnear
  have hless : |j - k| < 1 := by exact_mod_cast hnear
  rw [Int.abs_lt_one_iff, sub_eq_zero] at hless
  rw [hj, hk, hless]

section Nearest

variable {value : ℚ} {w : Double} (hpos : 0 < value) (hw : IsNearest value w)

include hpos hw

/-- A double is much nearer to a number that it is nearest to than one unit of its last digit. -/
theorem IsNearest.abs_sub_lt {count : ℕ} (hmost : count ≤ 12)
    (hplace : -322 ≤ significantPlace count value) :
    |w.toRat - value| < (10 : ℚ) ^ significantPlace count value / 20 := by
  have hupper := Int.lt_zpow_succ_log_self (b := 10) (by norm_num) value
  rw [Nat.cast_ofNat,
    show Int.log 10 value + 1 = count + significantPlace count value by
      rw [significantPlace_of_pos hpos]; ring,
    zpow_add₀ (by norm_num), zpow_natCast] at hupper
  generalize significantPlace count value = place at hplace hupper ⊢
  have hunit : (0 : ℚ) < (10 : ℚ) ^ place := by positivity
  have hcount : (10 : ℚ) ^ count ≤ 10 ^ 12 := pow_le_pow_right₀ (by norm_num) hmost
  have hleast : (2 : ℚ) ^ leastExponent < (10 : ℚ) ^ place / 10 := by
    calc (2 : ℚ) ^ leastExponent < (10 : ℚ) ^ (-323 : ℤ) := least_between.2
      _ ≤ (10 : ℚ) ^ (place - 1) := zpow_le_zpow_right₀ (by norm_num) (by omega)
      _ = (10 : ℚ) ^ place / 10 := zpow_sub_one₀ (by norm_num) place
  have hrelative : |value| * (2 : ℚ) ^ (-52 : Int) < (10 : ℚ) ^ place / 10 := by
    rw [abs_of_pos hpos]
    calc value * (2 : ℚ) ^ (-52 : Int)
        < (10 : ℚ) ^ count * (10 : ℚ) ^ place * (2 : ℚ) ^ (-52 : Int) := by gcongr
      _ ≤ 10 ^ 12 * (10 : ℚ) ^ place * (2 : ℚ) ^ (-52 : Int) := by gcongr
      _ ≤ (10 : ℚ) ^ place / 10 := by
          norm_num
          linarith
  calc |w.toRat - value| ≤ spacing value / 2 := hw.error
    _ < (10 : ℚ) ^ place / 10 / 2 := by
        gcongr
        exact (spacing_le_max hpos.ne').trans_lt (max_lt hrelative hleast)
    _ = (10 : ℚ) ^ place / 20 := by ring

/-- Read as a double, a rounded number keeps its digits. -/
theorem IsNearest.significant_eq {count : ℕ} (hcount : 0 < count) (hmost : count ≤ 12)
    (hfixed : significant count value = value) (hplace : -322 ≤ significantPlace count value) :
    significant count w.toRat = value := by
  have hnear := hw.abs_sub_lt hpos hmost hplace
  refine significant_eq_of_near hcount hpos hfixed (hnear.trans_le ?_) (.inr hnear)
  gcongr
  norm_num

end Nearest

/-- The sign makes no difference. -/
theorem IsNearest.significant_eq_of_ne_zero {value : ℚ} {w : Double} (hw : IsNearest value w)
    (hne : value ≠ 0) {count : ℕ} (hcount : 0 < count) (hmost : count ≤ 12)
    (hfixed : significant count value = value) (hplace : -322 ≤ significantPlace count value) :
    significant count w.toRat = value := by
  rcases lt_or_gt_of_ne hne with hneg | hpos
  · have hsame := hw.neg.significant_eq (neg_pos.mpr hneg) hcount hmost
      (by rw [significant_neg, hfixed]) (by rwa [significantPlace_neg])
    rw [toRat_neg, significant_neg] at hsame
    exact neg_injective hsame
  · exact hw.significant_eq hpos hcount hmost hfixed hplace

theorem abs_significant_sub_le (q : ℚ) (count : ℕ) :
    |significant count q - q| ≤ (10 : ℚ) ^ significantPlace count q / 2 :=
  abs_nearestEven_mul_sub_le (by positivity) q

/-- Around `10 ^ -314` the doubles are about half as far from each other as ten digits are. The power
itself is close to one of them. -/
theorem IsNearest.significant_eq_of_place {value : ℚ} {w : Double} (hpos : 0 < value)
    (hw : IsNearest value w) (hfixed : significant 10 value = value)
    (hplace : significantPlace 10 value = -323) : significant 10 w.toRat = value := by
  have hlog : Int.log 10 value = -314 := by
    rw [significantPlace_of_pos hpos] at hplace
    omega
  have hupper := Int.lt_zpow_succ_log_self (b := 10) (by norm_num) value
  rw [Nat.cast_ofNat, hlog] at hupper
  have hnear : |w.toRat - value| < (10 : ℚ) ^ (-323 : ℤ) / 2 := by
    refine hw.error.trans_lt ?_
    gcongr
    refine (spacing_le_max hpos.ne').trans_lt (max_lt ?_ least_between.2)
    rw [abs_of_pos hpos]
    calc value * (2 : ℚ) ^ (-52 : Int)
        < (10 : ℚ) ^ (-314 + 1 : ℤ) * (2 : ℚ) ^ (-52 : Int) := by gcongr
      _ ≤ (10 : ℚ) ^ (-314 + 1 : ℤ) * (10 : ℚ) ^ (-10 : ℤ) := by
          gcongr
          norm_num
      _ = (10 : ℚ) ^ (-323 : ℤ) := by
          rw [← zpow_add₀ (by norm_num)]
          rfl
  rw [← hplace] at hnear
  refine significant_eq_of_near (by decide) hpos hfixed hnear ?_
  rcases le_or_gt ((10 : ℚ) ^ Int.log 10 value) w.toRat with hle | hless
  · exact .inl hle
  · obtain ⟨y, hy, hclose⟩ : ∃ y : Double, y.isFinite = true ∧
        |y.toRat - (10 : ℚ) ^ (-314 : ℤ)| < (10 : ℚ) ^ (-323 : ℤ) / 20 :=
      ⟨finite false 2024022533 leastExponent (by decide), rfl, by decide +kernel⟩
    have hpower := eq_zpow_of_near_below (by decide) hpos hfixed
      (hnear.trans (half_lt_self (by positivity))) hless
    rw [hlog] at hpower
    rw [← hpower, ← hplace] at hclose
    exact .inr ((hw.nearest y hy).trans_lt hclose)

/-- Read as a double, a number of ten digits that is the rounded form of a double keeps its
digits. -/
theorem IsNearest.significant_ten_eq {x w : Double} (hx : 0 < x.toRat)
    (hw : IsNearest (significant 10 x.toRat) w) :
    significant 10 w.toRat = significant 10 x.toRat := by
  have hxfinite := isFinite_of_toRat_ne_zero hx.ne'
  have hpos : 0 < significant 10 x.toRat :=
    lt_of_lt_of_le (by positivity) (significant_between hx 10 (by decide)).1
  have hfixed := significant_significant (show 0 < 10 by decide) x.toRat
  by_cases hplace : -322 ≤ significantPlace 10 (significant 10 x.toRat)
  · exact hw.significant_eq hpos (by decide) (by decide) hfixed hplace
  by_cases hleast : significantPlace 10 x.toRat ≤ -324
  · -- The rounded form is so near to the double that no other double is nearer.
    have hunit : (10 : ℚ) ^ significantPlace 10 x.toRat < (2 : ℚ) ^ leastExponent := by
      calc (10 : ℚ) ^ significantPlace 10 x.toRat ≤ (10 : ℚ) ^ (-324 : ℤ) :=
            zpow_le_zpow_right₀ (by norm_num) hleast
        _ < (2 : ℚ) ^ leastExponent := zpow_lt_least
    have hround := abs_significant_sub_le x.toRat 10
    have hnearest := hw.nearest x hxfinite
    rw [abs_sub_comm] at hround
    have htriangle := abs_add_le (w.toRat - significant 10 x.toRat)
      (significant 10 x.toRat - x.toRat)
    rw [sub_add_sub_cancel, abs_sub_comm (significant 10 x.toRat)] at htriangle
    rw [eq_of_abs_sub_lt hw.isFinite hxfinite (by linarith)]
  · refine hw.significant_eq_of_place hpos hfixed ?_
    rcases significantPlace_significant (show 0 < 10 by decide) hx with hsame | ⟨-, hnext⟩
    · omega
    · omega

end Double

end SciCalc
