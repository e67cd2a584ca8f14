import SciCalc.Proofs.Decimal.WholeNumbers
import SciCalc.Proofs.Display.Totality

/-! # Displays of whole numbers

An integer of at most ten digits is not changed by the rounding for the display, provided that its
decimal logarithm names the place of its first digit. Its shortest text is its decimal digits and a
zero behind the point, and the point goes with the zero. So what is displayed is the integer.
-/

namespace SciCalc

/-! ## The shortest text -/

namespace Double

variable {x : Double} {n : Int} (hx : x.toInt? = some n) (hn : n ≠ 0)
  (hbound : n.natAbs < mantissaBound)

include hx hn hbound

/-- The shortest decimal of a whole double, written without an exponent, is the integer. -/
theorem plainChars_shortest : x.shortest.plainChars = (toString n).toList := by
  obtain ⟨places, hplaces, hpos, hdigits⟩ := exists_shortest hx hn hbound
  have hsign : x.shortest.signChars = if n < 0 then ['-'] else [] := by
    rw [Decimal.signChars, negative_shortest (toInt?_eq_some_iff.mp hx).1,
      isNegative_of_toInt? hx hn]
    simp only [decide_eq_true_eq]
  rw [Decimal.plainChars, hsign, toList_toString_int, ← hdigits, toDigits_mul_ten_pow hpos,
    hplaces]
  simp [Decimal.digitChars]

/-- The shortest text of a whole double is the integer with a zero behind the point. -/
theorem toText_of_toInt? : x.toText = String.ofList ((toString n).toList ++ ['.', '0']) := by
  obtain ⟨places, hplaces, hpos, hdigits⟩ := exists_shortest hx hn hbound
  have htop : x.shortest.leadingExponent + 1 = decimalLength n.natAbs := by
    rw [Decimal.leadingExponent, ← hdigits, decimalLength, toDigits_mul_ten_pow hpos, hplaces]
    simp [Decimal.digitChars]
    omega
  have hlength : decimalLength n.natAbs ≤ 16 :=
    (decimalLength_le_iff (by decide)).mpr (hbound.trans (by decide))
  have hlength' := decimalLength_pos n.natAbs
  rw [toText_of_isFinite (toInt?_eq_some_iff.mp hx).1, if_pos, pointedChars, if_pos,
    plainChars_shortest hx hn hbound]
  · rw [hplaces]
    exact Int.natCast_nonneg places
  · simp only [Bool.and_eq_true, decide_eq_true_eq]
    omega

end Double

/-! ## Rounding for the display -/

namespace Display

/-- An integer is written with digits and at most a minus. -/
theorem mem_toString_int {n : Int} {c : Char} (hmem : c ∈ (toString n).toList) :
    c = '-' ∨ c.isDigit = true := by
  rw [toList_toString_int, List.mem_append] at hmem
  rcases hmem with hsign | hdigit
  · split at hsign
    · exact .inl (List.mem_singleton.mp hsign)
    · exact absurd hsign List.not_mem_nil
  · exact .inr (Nat.isDigit_of_mem_toDigits (by decide) (by decide) hdigit)

/-- The zero behind the point of an integer is cut off with the point. -/
theorem cutFraction_toString (n : Int) :
    cutFraction (String.ofList ((toString n).toList ++ ['.', '0'])) = toString n := by
  have hpoint : ∀ c ∈ (toString n).toList, (c != '.') = true := by
    intro c hmem
    rcases mem_toString_int hmem with rfl | hdigit
    · rfl
    · rw [bne_iff_ne]
      rintro rfl
      exact absurd hdigit (by decide)
  have hwhole : ((toString n).toList ++ ['.', '0']).takeWhile (· != '.') = (toString n).toList := by
    rw [List.takeWhile_append_of_pos hpoint]
    exact List.append_nil _
  have hfraction : ((toString n).toList ++ ['.', '0']).dropWhile (· != '.') = ['.', '0'] :=
    List.dropWhile_append_of_pos hpoint
  have hcut : Text.dropTrailing (· == '0') ['0'] = [] := rfl
  simp only [cutFraction, String.toList_ofList, hwhole, hfraction, List.tail_cons, hcut]
  simp

variable {x : Double} {n : Int} (hx : x.toInt? = some n)

include hx

theorem nearestInteger_of_toInt? : nearestInteger x = .ok n := by
  have hround : x.round = n := by
    have hsize : roundDiv n.natAbs 1 = n.natAbs := by
      simpa using roundDiv_of_mul n.natAbs Nat.one_pos
    simp only [Double.round, (Double.toInt?_eq_some_iff.mp hx).2, Rat.num_intCast,
      Rat.den_intCast, hsize]
    rcases eq_or_ne n 0 with rfl | hn
    · simp
    · exact Double.signed_natAbs hx hn
  rw [← hround]
  obtain ⟨negative, mantissa, exponent, canonical, rfl, -⟩ := Double.exists_finite_of_toInt? hx
  rfl

variable (hn : n ≠ 0) (hbound : n.natAbs < 10 ^ 10)

include hn hbound

theorem plainText_of_toInt? :
    plainText (.float x) = String.ofList ((toString n).toList ++ ['.', '0']) := by
  have htext := Double.toText_of_toInt? hx hn (hbound.trans (by decide))
  have hplain : x.toText.toList.contains 'e' = false := by
    rw [htext, String.toList_ofList, ← Bool.not_eq_true, List.contains_iff_mem]
    intro hmem
    rcases List.mem_append.mp hmem with hdigit | hpoint
    · exact (mem_toString_int hdigit).elim (by decide) (by decide)
    · exact absurd hpoint (by decide)
  simp only [plainText, hplain, Bool.false_eq_true, if_false]
  exact htext

/-- Rounding to ten digits keeps an integer of at most ten digits. -/
theorem nearestDecimal_of_toInt? : nearestDecimal 10 x = x := by
  have hfinite := (Double.toInt?_eq_some_iff.mp hx).1
  obtain ⟨hden, hratio⟩ := Double.ratio_magnitude hfinite
  rw [Double.abs_toRat_of_toInt? hx] at hratio
  have hnum := (num_pos_of_ratio_eq hratio (Int.natAbs_ne_zero.mpr hn)).ne'
  obtain ⟨hsize, hsign⟩ := Decimal.size_ofFraction_whole x.isNegative hden hratio
    (Int.natAbs_ne_zero.mpr hn) hbound
  have hread := Decimal.toInt?_toDouble hsize (hbound.le.trans (by decide))
  rw [hsign, Double.signed_natAbs hx hn] at hread
  have hcount : max 1 (min 10 mostDigits) = 10 := by decide
  simp only [nearestDecimal, hfinite, if_true, hcount, Decimal.ofDouble, hnum, if_false]
  rw [Double.eq_ofInt_of_toInt? hread hn, ← Double.eq_ofInt_of_toInt? hx hn]

/-- The scaling for ten digits keeps an integer of at most ten digits. -/
theorem exists_roundDouble_whole (hlog : magnitude x = .ok (Nat.log 10 n.natAbs)) :
    ∃ y : Double, roundDouble x 10 = .ok (.float y) ∧ y.toInt? = some n := by
  have hdecade : Nat.log 10 n.natAbs < 10 :=
    Nat.log_lt_of_lt_pow (Int.natAbs_ne_zero.mpr hn) hbound
  obtain ⟨room, hroom⟩ := Nat.exists_eq_add_of_le (show Nat.log 10 n.natAbs + 1 ≤ 10 by omega)
  have hplace : ((10 : Nat) : Int) - Nat.log 10 n.natAbs - 1 = room := by omega
  have hpower : tenPow room ≤ mantissaBound :=
    (Nat.pow_le_pow_right (by decide) (show room ≤ 9 by omega)).trans (by decide)
  have hscaled : (n * (tenPow room : Int)).natAbs ≤ mantissaBound := by
    rw [Int.natAbs_mul, Int.natAbs_natCast]
    calc n.natAbs * 10 ^ room ≤ 10 ^ (Nat.log 10 n.natAbs + 1) * 10 ^ room :=
          Nat.mul_le_mul_right _ (Nat.lt_pow_succ_log_self (by decide) _).le
      _ = 10 ^ 10 := by rw [← Nat.pow_add, ← hroom]
      _ ≤ mantissaBound := by decide
  have hproduct :=
    nearestInteger_of_toInt? (Double.toInt?_mul hx (Double.toInt?_ofNat hpower) hscaled)
  have hpowerOfTen : powerOfTen room = .ok (Double.ofNat (tenPow room)) := by
    rw [powerOfTen, if_neg (by omega)]
  refine ⟨Double.ofFraction (n * (tenPow room : Int) < 0) (n * (tenPow room : Int)).natAbs
    (tenPow room), ?_, ?_⟩
  · simp only [roundDouble, roundAt, hlog, bind_ok, hplace, Int.toNat_natCast,
      nearestDecimal_of_toInt? hx hn hbound, hpowerOfTen, hproduct]
    rw [if_pos (Int.natCast_nonneg room)]
    rfl
  · exact Double.toInt?_ofFraction_mul (Nat.pow_pos (by decide))
      (hbound.le.trans (by decide))

/-- An integer of at most ten digits needs no power of ten. -/
theorem needsNoPower_of_toInt? :
    (Settings.largeThreshold.isAtMost x.abs || x.abs.isLess Settings.smallThreshold ||
      x.abs.isLess Settings.exponentThreshold) = false := by
  have hfiniteAbs : x.abs.isFinite = true := by
    rw [Double.isFinite_abs, (Double.toInt?_eq_some_iff.mp hx).1]
  have hsize : x.abs.toRat = (n.natAbs : ℚ) := by
    rw [Double.toRat_abs, Double.abs_toRat_of_toInt? hx]
  have hone : (1 : ℚ) ≤ n.natAbs := by exact_mod_cast Int.natAbs_pos.mpr hn
  have hlarge : Settings.largeThreshold.toRat = ((10 ^ 10 : Nat) : ℚ) := by
    rw [Settings.largeThreshold_toRat, Nat.cast_pow, Nat.cast_ofNat]
  have hexponent : Settings.exponentThreshold.toRat ≤ 1 :=
    Settings.exponentThreshold_between.2.trans (by norm_num)
  have hsmall : Settings.smallThreshold.toRat ≤ 1 := Settings.smallThreshold_le.trans hexponent
  simp only [← Bool.not_eq_true, Bool.or_eq_true, not_or]
  rw [Double.isAtMost_iff rfl hfiniteAbs, Double.isLess_iff hfiniteAbs rfl,
    Double.isLess_iff hfiniteAbs rfl, hsize, hlarge, Nat.cast_le]
  exact ⟨⟨not_le.mpr hbound, not_lt.mpr (hsmall.trans hone)⟩, not_lt.mpr (hexponent.trans hone)⟩

omit hn in
/-- An integer of at most ten digits is displayed in its decimal digits, and both zeros as one. -/
theorem formatDouble_of_toInt? (hlog : n ≠ 0 → magnitude x = .ok (Nat.log 10 n.natAbs)) :
    formatDouble x = .ok (toString n) := by
  have hnumber : x.isNan = false ∧ x.isInfinite = false := by
    obtain ⟨negative, mantissa, exponent, canonical, rfl, -⟩ := Double.exists_finite_of_toInt? hx
    exact ⟨rfl, rfl⟩
  have hzero := Double.isZero_of_toInt? hx
  simp only [formatDouble, format, Number.toDouble?, hnumber.1, hnumber.2, Bool.false_eq_true,
    if_false]
  rcases eq_or_ne n 0 with rfl | hn
  · rw [if_pos (by simpa using hzero)]
    rfl
  · obtain ⟨y, hy, hwhole⟩ := exists_roundDouble_whole hx hn hbound (hlog hn)
    have hrounded : roundToPrecision (.float x) Settings.displayDigits = .ok (.float y) := by
      simp only [roundToPrecision, Number.toDouble?, hzero, hn, decide_false, Bool.false_eq_true,
        if_false]
      exact hy
    rw [if_neg (by simp [hzero, hn]), needsNoPower_of_toInt? hx hn hbound, if_neg (by decide),
      hrounded, Except.map_ok, plainText_of_toInt? hwhole hn hbound, cutFraction_toString]

end Display

end SciCalc
