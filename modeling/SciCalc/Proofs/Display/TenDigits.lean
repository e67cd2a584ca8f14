import SciCalc.Proofs.Decimal.Canonical
import SciCalc.Proofs.Display.Rounding
import SciCalc.Proofs.Display.Values

/-! # The display shows ten significant digits

The display text of a number stands for the number rounded to ten significant digits, ties to even.
With a power of ten it stands for exactly this; without one, numbers below one are cut toward zero to
nine decimals. No text has a superfluous zero, and none stands for zero. The text does not depend on
which of the exponents that a rounded logarithm may name is used on the way.
-/

namespace SciCalc

open Numeral

/-- The number that a text without a power of ten stands for: ten significant digits, and of a number
below one those that nine decimals have room for. -/
def shown (q : ℚ) : ℚ :=
  if 1 ≤ |significant 10 q| then significant 10 q else truncated 9 (significant 10 q)

theorem shown_neg (q : ℚ) : shown (-q) = -shown q := by
  rw [shown, shown, significant_neg, abs_neg, truncated_neg]
  split <;> rfl

theorem shown_of_pos {q : ℚ} (hq : 0 < q) :
    shown q = if 1 ≤ significant 10 q then significant 10 q else truncated 9 (significant 10 q) := by
  rw [shown, abs_of_nonneg]
  exact le_trans (by positivity) (significant_between hq 10 (by decide)).1

/-! ## Before the fraction is cut off -/

/-- A way to write a decimal, without a power of ten, that the display can start from. -/
structure Written.Starts (written : Written) (d : Decimal) : Prop where
  power : written.power = none
  whole : Unpadded written.whole
  size : written.size = d.size
  room : truncated (Settings.displayDigits - written.whole.length) d.size =
    if 1 ≤ d.size then d.size else truncated 9 d.size

namespace Decimal

variable {d : Decimal} (hdigits : d.digits ≠ 0) {written : Written}

theorem exists_digitChars_eq_cons (hdigits : d.digits ≠ 0) :
    ∃ first rest, d.digitChars = first :: rest ∧ first ≠ '0' := by
  obtain ⟨first, rest, hchars⟩ := List.exists_cons_of_ne_nil d.digitChars_ne_nil
  have hhead : d.digitChars.head? ≠ some '0' := head?_toDigits hdigits
  refine ⟨first, rest, hchars, fun hfirst => hhead ?_⟩
  rw [hchars, hfirst, List.head?_cons]

include hdigits

/-- A number without a fraction is not cut off. -/
theorem starts_of_whole (hexponent : 0 ≤ d.exponent) {count : ℕ}
    (hwhole : written.whole = d.digitChars ++ List.replicate d.exponent.toNat '0')
    (hfraction : written.fraction = List.replicate count '0') (hpower : written.power = none) :
    written.Starts d := by
  obtain ⟨places, hplaces⟩ := Int.eq_ofNat_of_zero_le hexponent
  rw [hplaces, Int.toNat_natCast] at hwhole
  have hsize : d.size = ((d.digits * 10 ^ places : ℕ) : ℚ) := by
    rw [size, hplaces, zpow_natCast]
    push_cast
    rfl
  have hone : 1 ≤ d.size := by
    rw [hsize]
    exact_mod_cast Nat.mul_pos (Nat.pos_of_ne_zero hdigits) (by positivity)
  refine ⟨hpower, .inr ?_, ?_, ?_⟩
  · obtain ⟨first, rest, hchars, hfirst⟩ := exists_digitChars_eq_cons hdigits
    rw [hwhole, hchars]
    simpa using hfirst
  · rw [Written.size_of_none hpower, hwhole, hfraction, digitsValue_whole, List.length_replicate,
      hsize, pow_add, zpow_neg, zpow_natCast]
    push_cast
    field_simp
  · rw [if_pos hone]
    refine truncated_of_eq_natCast (n := d.digits * 10 ^ places *
      10 ^ (Settings.displayDigits - written.whole.length)) ?_
    rw [hsize]
    push_cast
    rfl

omit hdigits in
/-- A number below one is cut to as many decimals as a display text has digits after the zero. -/
theorem starts_of_zero (hpower : written.power = none) (hsize : written.size = d.size)
    (hwhole : written.whole = ['0']) : written.Starts d := by
  have hless : d.size < 1 := by
    have hdigitsLess := digitsValue_lt written.isDigit_of_mem_fraction
    have hzero : digitsValue (['0'] ++ written.fraction) = digitsValue written.fraction :=
      digitsValue_zeros_append 1 written.fraction
    rw [← hsize, Written.size_of_none hpower, hwhole, hzero, zpow_neg, zpow_natCast,
      ← div_eq_mul_inv, div_lt_one (by positivity)]
    exact_mod_cast hdigitsLess
  refine ⟨hpower, .inl hwhole, hsize, ?_⟩
  rw [if_neg (not_le.mpr hless), hwhole]
  rfl

/-- Of a number of at most ten digits that begins before the point, nothing is cut off. -/
theorem starts_of_digits (hfew : d.digits < 10 ^ 10) (hpower : written.power = none)
    (hsize : written.size = d.size) {point : ℕ} (hpoint : 0 < point)
    (hwhole : written.whole = d.digitChars.take point)
    (hfraction : written.fraction = d.digitChars.drop point) : written.Starts d := by
  obtain ⟨first, rest, hchars, hfirst⟩ := exists_digitChars_eq_cons hdigits
  obtain ⟨fewer, rfl⟩ := Nat.exists_eq_succ_of_ne_zero hpoint.ne'
  have hrun : written.whole ++ written.fraction = first :: rest := by
    rw [hwhole, hfraction, List.take_append_drop, hchars]
  have hlength : written.whole.length + written.fraction.length ≤ 10 := by
    rw [← List.length_append, hrun, ← hchars]
    exact (decimalLength_le_iff (by decide)).mpr hfew
  rw [hchars, List.take_succ_cons] at hwhole
  have hlonger : written.fraction.length ≤ rest.length := by
    have hcount := congrArg List.length hrun
    rw [List.length_append, hwhole, List.length_cons, List.length_cons] at hcount
    omega
  have hvalue := Written.size_of_none hpower
  rw [zpow_neg, zpow_natCast, ← div_eq_mul_inv, hsize, hrun] at hvalue
  have hone : 1 ≤ d.size := by
    have hlower := le_digitsValue (written.isDigit_of_mem first (by simp [hrun])) hfirst rest
    rw [hvalue, one_le_div (by positivity)]
    exact_mod_cast (Nat.pow_le_pow_right (by decide) hlonger).trans hlower
  refine ⟨hpower, .inr (by simpa [hwhole] using hfirst), hsize, ?_⟩
  rw [if_pos hone]
  obtain ⟨more, hmore⟩ := Nat.exists_eq_add_of_le
    (show written.fraction.length ≤ 10 - written.whole.length by omega)
  refine truncated_of_eq_natCast (n := digitsValue (first :: rest) * 10 ^ more) ?_
  rw [hvalue, hmore, pow_add]
  push_cast
  field_simp

theorem exists_starts_plainChars (hfew : d.digits < 10 ^ 10) :
    ∃ written : Written, d.plainChars = d.signChars ++ written.chars ∧ written.Starts d := by
  rcases lt_or_ge d.exponent 0 with hfraction | hwhole
  · obtain ⟨written, hchars, hpower, hparts, hdecimal⟩ := d.exists_written_plain hfraction
    have hsize : written.size = d.size := by
      rw [← congrArg Decimal.size hdecimal]
      rfl
    refine ⟨written, hchars, ?_⟩
    rcases hparts with hzero | ⟨point, hpoint, hbefore, hbehind⟩
    · exact starts_of_zero hpower hsize hzero
    · exact starts_of_digits hdigits hfew hpower hsize hpoint hbefore hbehind
  · obtain ⟨written, hchars, hparts, hzeros, hpower⟩ := d.exists_written_whole hwhole 0
    rw [if_pos rfl, List.append_nil] at hchars
    exact ⟨written, hchars, starts_of_whole hdigits hwhole hparts hzeros hpower⟩

theorem exists_starts_pointedChars (hfew : d.digits < 10 ^ 10) :
    ∃ written : Written, Double.pointedChars d = d.signChars ++ written.chars ∧
      written.Starts d := by
  unfold Double.pointedChars
  split
  next hwhole =>
    obtain ⟨written, hchars, hparts, hzeros, hpower⟩ := d.exists_written_whole hwhole 1
    exact ⟨written, hchars, starts_of_whole hdigits hwhole hparts hzeros hpower⟩
  next => exact exists_starts_plainChars hdigits hfew

end Decimal

namespace Display

open Double

/-- The text that the display cuts off is the shortest decimal of the double. -/
theorem exists_starts_plainText {y : Double} (hfinite : y.isFinite = true)
    (hdigits : y.shortest.digits ≠ 0) (hfew : y.shortest.digits < 10 ^ 10) :
    ∃ written : Written, plainText (.float y) =
        String.ofList ((if y.shortest.negative then ['-'] else []) ++ written.chars) ∧
      written.Starts y.shortest := by
  obtain ⟨written, hchars, hstarts⟩ := Decimal.exists_starts_plainChars hdigits hfew
  obtain ⟨pointed, hpointed, hpointedStarts⟩ := Decimal.exists_starts_pointedChars hdigits hfew
  simp only [plainText, toText_of_isFinite hfinite, String.toList_ofList]
  split
  next =>
    split
    · exact ⟨written, congrArg String.ofList hchars, hstarts⟩
    · exact ⟨pointed, congrArg String.ofList hpointed, hpointedStarts⟩
  next =>
    obtain ⟨scientific, hscientific, -, hpower, -⟩ := y.shortest.exists_written_scientific
    have hmark : y.shortest.scientificChars.contains 'e' = true := by
      rw [hscientific, Decimal.signChars, Written.signed_chars _ _ hpower]
      simp [WrittenPower.chars]
    rw [if_pos hmark]
    exact ⟨written, congrArg String.ofList hchars, hstarts⟩

/-! ## Without a power of ten -/

section Plain

variable {x : Double} (hplain : IsPlain x)

include hplain

/-- A double that ten significant digits are read as is written with these digits. -/
theorem exists_starts_float :
    ∃ (written : Written) (d : Decimal),
      plainText (.float (Decimal.ofDouble 10 x).toDouble) =
        String.ofList ((if x.isNegative then ['-'] else []) ++ written.chars) ∧
      written.Starts d ∧ d.size = significant 10 |x.toRat| := by
  have hzero := hplain.toRat_ne_zero
  have hrange := isFinite_ofDouble hplain
  obtain ⟨hsign, hsize, hleast, hmost⟩ :=
    Decimal.ofDouble_spec (show 0 < 10 by decide) hplain.isFinite hzero
  have hdigits : (Decimal.ofDouble 10 x).digits ≠ 0 := (lt_of_lt_of_le (by decide) hleast).ne'
  have hnormal : (2 : ℚ) ^ (-1022 : Int) ≤ (Decimal.ofDouble 10 x).size := by
    rw [hsize]
    calc (2 : ℚ) ^ (-1022 : Int) ≤ (2 : ℚ) ^ (-24 : Int) :=
          zpow_le_zpow_right₀ (by norm_num) (by decide)
      _ ≤ (10 : ℚ) ^ (-7 : Int) := by norm_num
      _ ≤ (10 : ℚ) ^ Int.log 10 |x.toRat| :=
          zpow_le_zpow_right₀ (by norm_num) hplain.log_between.1
      _ ≤ significant 10 |x.toRat| := (significant_between (abs_pos.mpr hzero) 10 (by decide)).1
  have hshortest := Decimal.shortest_toDouble hdigits (hmost.trans (by decide)) hnormal hrange
  obtain ⟨hvalue, hlast, hfewer⟩ := Decimal.normalize_spec hdigits
  obtain ⟨written, htext, hstarts⟩ := exists_starts_plainText hrange
    (by rw [hshortest]; exact fun hnone => hlast (by rw [hnone]))
    (by rw [hshortest]; exact hfewer.trans_lt hmost)
  rw [hshortest] at htext hstarts
  rw [Decimal.negative_normalize, hsign] at htext
  exact ⟨written, _, htext, hstarts, hvalue.trans hsize⟩

/-- An integer that ten significant digits spell is written with these digits. -/
theorem exists_starts_int {n : ℤ} (hn : (n : ℚ) = significant 10 x.toRat) :
    ∃ (written : Written) (d : Decimal),
      plainText (.int n) =
        String.ofList ((if x.isNegative then ['-'] else []) ++ written.chars) ∧
      written.Starts d ∧ d.size = significant 10 |x.toRat| := by
  have hzero := hplain.toRat_ne_zero
  obtain ⟨hsign, hsize, hleast, -⟩ :=
    Decimal.ofDouble_spec (show 0 < 10 by decide) hplain.isFinite hzero
  have hdigits : (Decimal.ofDouble 10 x).digits ≠ 0 := (lt_of_lt_of_le (by decide) hleast).ne'
  rw [← Decimal.toRat_ofDouble (by decide) hplain.isFinite hzero] at hn
  have hnegative : decide (n < 0) = x.isNegative := by
    rw [← hsign, Decimal.negative_eq hdigits, ← hn]
    exact decide_eq_decide.mpr Int.cast_lt_zero.symm
  have hcount : (n.natAbs : ℚ) = significant 10 |x.toRat| := by
    rw [Nat.cast_natAbs, Int.cast_abs, hn, Decimal.abs_toRat, hsize]
  have hnonzero : n.natAbs ≠ 0 := by
    have hpos : 0 < significant 10 |x.toRat| := lt_of_lt_of_le (by positivity)
      (significant_between (abs_pos.mpr hzero) 10 (by decide)).1
    rw [← hcount] at hpos
    exact_mod_cast hpos.ne'
  refine ⟨⟨Nat.toDigits 10 n.natAbs, [], none, Nat.toDigits_ne_nil,
    fun c => Nat.isDigit_of_mem_toDigits (by decide) (by decide), by simp⟩,
    ⟨false, n.natAbs, 0⟩, ?_,
    Decimal.starts_of_whole hnonzero le_rfl (by simp [Decimal.digitChars])
      (show [] = List.replicate 0 '0' from rfl) rfl, ?_⟩
  · rw [plainText, ← String.ofList_toList (s := toString n), toList_toString_int, ← hnegative]
    simp [Written.chars, Written.pointChars, Written.powerChars]
  · rw [Decimal.size_ofNat, hcount]

/-- A number without a power of ten is written from its ten significant digits. -/
theorem exists_starts_rounded {exponent : ℤ} (hnames : NamesFirstDigit 10 x.toRat exponent) :
    ∃ (number : Number) (written : Written) (d : Decimal), roundAt exponent x 10 = .ok number ∧
      plainText number = String.ofList ((if x.isNegative then ['-'] else []) ++ written.chars) ∧
      written.Starts d ∧ d.size = significant 10 |x.toRat| := by
  rcases roundAt_cases hplain hnames with hround | ⟨n, hround, hn⟩
  · exact ⟨_, (exists_starts_float hplain).imp fun written hwritten =>
      hwritten.imp fun d hd => ⟨hround, hd⟩⟩
  · exact ⟨_, (exists_starts_int hplain hn).imp fun written hwritten =>
      hwritten.imp fun d hd => ⟨hround, hd⟩⟩

/-- The text of a number without a power of ten, with at most as many digits as are displayed unless
all of them stand before the point. -/
theorem exists_isPlain_rounded {exponent : ℤ} (hnames : NamesFirstDigit 10 x.toRat exponent) :
    ∃ (number : Number) (written : Written), roundAt exponent x 10 = .ok number ∧
      cutFraction (plainText number) =
        String.ofList ((if x.isNegative then ['-'] else []) ++ written.chars) ∧
      written.IsPlain ∧ written.fraction.length ≤ 10 - written.whole.length ∧
      written.size = shown |x.toRat| := by
  obtain ⟨number, written, d, hround, htext, hstarts, hsize⟩ :=
    exists_starts_rounded hplain hnames
  refine ⟨number, written.cutAt (Settings.displayDigits - written.whole.length), hround, ?_,
    written.isPlain_cutAt hstarts.power hstarts.whole _, written.length_fraction_cutAt_le _, ?_⟩
  · rw [htext, cutFraction_written written _ hstarts.power]
  · rw [written.size_cutAt hstarts.power, hstarts.size, hstarts.room, hsize,
      shown_of_pos (abs_pos.mpr hplain.toRat_ne_zero)]

end Plain

/-! ## With a power of ten -/

/-- The text of a number with a power of ten. -/
theorem exists_isScientific {x : Double} (hfinite : x.isFinite = true) (hzero : x.toRat ≠ 0) :
    ∃ written : Written, scientific x =
        String.ofList ((if x.isNegative then ['-'] else []) ++ written.chars) ∧
      written.IsScientific ∧ written.size = significant 10 |x.toRat| := by
  obtain ⟨hsign, hsize, hleast, -⟩ := Decimal.ofDouble_spec (show 0 < 10 by decide) hfinite hzero
  have hdigits : (Decimal.ofDouble 10 x).digits ≠ 0 := (lt_of_lt_of_le (by decide) hleast).ne'
  obtain ⟨written, hchars, hwhole, hpower, hdecimal⟩ :=
    (Decimal.ofDouble 10 x).exists_written_scientific
  have hpadded : paddedScientific (min (Settings.displayDigits - 1) 9) x =
      (Decimal.ofDouble 10 x).scientificChars := by
    simp only [paddedScientific]
    exact if_neg hdigits
  refine ⟨written.tidied, ?_, written.isScientific_tidied hpower ?_ ?_, ?_⟩
  · rw [scientific, if_pos hfinite, hpadded, hchars, Decimal.signChars,
      cleanScientific_written _ _ hpower, hsign]
  · rw [Decimal.value_writtenExponent]
    rfl
  · obtain ⟨first, rest, hchars, hfirst⟩ := Decimal.exists_digitChars_eq_cons hdigits
    exact ⟨first, hfirst, by rw [hwhole, hchars]; rfl⟩
  · rw [Written.size_tidied, ← hsize, ← congrArg Decimal.size hdecimal]
    rfl

/-! ## The display text -/

/-- Numbers that are displayed with a power of ten. -/
def NeedsPower (x : Double) : Prop :=
  10 ^ 10 ≤ |x.toRat| ∨ |x.toRat| < Settings.exponentThreshold.toRat

instance (x : Double) : Decidable (NeedsPower x) := inferInstanceAs (Decidable (_ ∨ _))

section Text

variable {x : Double} (hfinite : x.isFinite = true)

include hfinite

theorem needsPower_iff :
    (Settings.largeThreshold.isAtMost x.abs || x.abs.isLess Settings.smallThreshold ||
      x.abs.isLess Settings.exponentThreshold) = true ↔ NeedsPower x := by
  have hfiniteAbs : x.abs.isFinite = true := by rw [Double.isFinite_abs, hfinite]
  rw [Bool.or_eq_true, Bool.or_eq_true, Double.isAtMost_iff rfl hfiniteAbs,
    Double.isLess_iff hfiniteAbs rfl, Double.isLess_iff hfiniteAbs rfl, Double.toRat_abs,
    Settings.largeThreshold_toRat, NeedsPower]
  constructor
  · rintro ((hle | hless) | hless)
    · exact .inl hle
    · exact .inr (hless.trans_le Settings.smallThreshold_le)
    · exact .inr hless
  · rintro (hle | hless)
    · exact .inl (.inl hle)
    · exact .inr hless

theorem isNumber : x.isNan = false ∧ x.isInfinite = false := by
  cases x with
  | nan | inf negative => exact absurd hfinite Bool.false_ne_true
  | finite negative mantissa exponent canonical => exact ⟨rfl, rfl⟩

theorem formatDouble_eq (hzero : x.toRat ≠ 0) :
    formatDouble x =
      if Settings.largeThreshold.isAtMost x.abs || x.abs.isLess Settings.smallThreshold ||
          x.abs.isLess Settings.exponentThreshold then .ok (scientific x)
      else (fun rounded => cutFraction (plainText rounded)) <$> roundDouble x 10 := by
  have hnumber := isNumber hfinite
  have hnonzero : ¬x.isZero = true := fun hnone => hzero ((isZero_iff hfinite).mp hnone)
  have hround : roundToPrecision (.float x) Settings.displayDigits = roundDouble x 10 := by
    simp only [roundToPrecision, Number.toDouble?, if_neg hnonzero]
    rfl
  simp only [formatDouble, format, Number.toDouble?, hnumber.1, hnumber.2, Bool.false_eq_true,
    if_false, if_neg hnonzero, hround]

theorem formatDouble_of_zero (hzero : x.toRat = 0) : formatDouble x = .ok "0" := by
  have hnumber := isNumber hfinite
  simp only [formatDouble, format, Number.toDouble?, hnumber.1, hnumber.2, Bool.false_eq_true,
    if_false, if_pos ((isZero_iff hfinite).mpr hzero)]

/-- Large and small numbers are displayed as their ten significant digits with a power of ten. -/
theorem exists_formatDouble_scientific (hzero : x.toRat ≠ 0) (hpower : NeedsPower x) :
    ∃ written : Written, formatDouble x =
        .ok (String.ofList ((if x.isNegative then ['-'] else []) ++ written.chars)) ∧
      written.IsScientific ∧ written.size = significant 10 |x.toRat| := by
  obtain ⟨written, htext, hspec⟩ := exists_isScientific hfinite hzero
  refine ⟨written, ?_, hspec⟩
  rw [formatDouble_eq hfinite hzero, if_pos ((needsPower_iff hfinite).mpr hpower), htext]

theorem isPlain_of_not_needsPower (hplain : ¬NeedsPower x) : IsPlain x := by
  rw [← needsPower_iff hfinite, Bool.or_eq_true, Bool.or_eq_true, not_or, not_or,
    Bool.not_eq_true, Bool.not_eq_true, Bool.not_eq_true] at hplain
  exact isPlain_of_thresholds hfinite hplain.1.1 hplain.2

/-- The other numbers are displayed without a power of ten, and cut if they are below one. -/
theorem exists_formatDouble_plain (hplain : ¬NeedsPower x) :
    ∃ written : Written, formatDouble x =
        .ok (String.ofList ((if x.isNegative then ['-'] else []) ++ written.chars)) ∧
      written.IsPlain ∧ written.fraction.length ≤ 10 - written.whole.length ∧
      written.size = shown |x.toRat| := by
  have hrange := isPlain_of_not_needsPower hfinite hplain
  obtain ⟨exponent, hmagnitude, hnames⟩ :=
    exists_magnitude hrange.toRat_ne_zero (show 0 < 10 by decide) (by decide)
  obtain ⟨number, written, hround, htext, hspec⟩ := exists_isPlain_rounded hrange hnames
  refine ⟨written, ?_, hspec⟩
  rw [formatDouble_eq hfinite hrange.toRat_ne_zero, if_neg (hplain ∘ (needsPower_iff hfinite).mp),
    roundDouble, hmagnitude, bind_ok, hround, ← htext]
  rfl

/-- What is displayed of a number is not zero. -/
theorem shown_pos (hplain : ¬NeedsPower x) : 0 < shown |x.toRat| := by
  have hrange := isPlain_of_not_needsPower hfinite hplain
  have hpos := abs_pos.mpr hrange.toRat_ne_zero
  have hlower : (10 : ℚ) ^ (-7 : ℤ) ≤ significant 10 |x.toRat| :=
    (zpow_le_zpow_right₀ (by norm_num) hrange.log_between.1).trans
      (significant_between hpos 10 (by decide)).1
  rw [shown_of_pos hpos]
  generalize significant 10 |x.toRat| = value at hlower ⊢
  have hvalue : 0 < value := lt_of_lt_of_le (by positivity) hlower
  split
  · exact hvalue
  · rw [truncated_of_nonneg hvalue.le]
    have hfloor : 1 ≤ ⌊value * 10 ^ 9⌋₊ := by
      refine Nat.le_floor ?_
      norm_num at hlower ⊢
      linarith
    have hcast : (0 : ℚ) < ⌊value * 10 ^ 9⌋₊ := by exact_mod_cast hfloor
    positivity

end Text

/-- The sign is that of the number. -/
theorem toRat_decimal_signed {x : Double} {written : Written} {rounds : ℚ → ℚ}
    (hodd : ∀ q, rounds (-q) = -rounds q) (hsize : written.size = rounds |x.toRat|) :
    (written.decimal (x.toRat < 0)).toRat = rounds x.toRat := by
  rw [written.toRat_decimal, hsize]
  split
  next hnegative => rw [abs_of_neg (of_decide_eq_true hnegative), hodd, neg_neg]
  next hpositive =>
    rw [abs_of_nonneg (not_lt.mp fun hnegative => hpositive (decide_eq_true hnegative))]

/-- The display text of a number is its ten significant digits, correctly rounded: with a power of
ten if the number is large or small, else without one and cut off behind the ninth decimal if the
rounded number is below one. In the latter case any exponent that a rounded logarithm may name leads to
the same text. -/
theorem exists_written_significant {x : Double} (hfinite : x.isFinite = true)
    (hzero : x.toRat ≠ 0) :
    ∃ written : Written,
      formatDouble x =
        .ok (String.ofList ((if x.toRat < 0 then ['-'] else []) ++ written.chars)) ∧
      (written.decimal (x.toRat < 0)).toRat ≠ 0 ∧
      (NeedsPower x → written.IsScientific ∧
        (written.decimal (x.toRat < 0)).toRat = significant 10 x.toRat) ∧
      (¬NeedsPower x → written.IsPlain ∧
        (written.decimal (x.toRat < 0)).toRat = shown x.toRat ∧
        ∀ exponent : ℤ, NamesFirstDigit 10 x.toRat exponent →
          ∃ number, roundAt exponent x 10 = .ok number ∧
            cutFraction (plainText number) =
              String.ofList ((if x.toRat < 0 then ['-'] else []) ++ written.chars)) := by
  have hsign : (if x.isNegative then ['-'] else []) = if x.toRat < 0 then ['-'] else [] := by
    simp only [isNegative_eq hzero, decide_eq_true_eq]
  rw [← hsign]
  have hnonzero : ∀ written : Written, 0 < written.size →
      (written.decimal (x.toRat < 0)).toRat ≠ 0 := by
    intro written hpos
    rw [written.toRat_decimal]
    split
    · exact neg_ne_zero.mpr hpos.ne'
    · exact hpos.ne'
  by_cases hpower : NeedsPower x
  · obtain ⟨written, htext, hspec, hsize⟩ := exists_formatDouble_scientific hfinite hzero hpower
    have hpos : 0 < significant 10 |x.toRat| := lt_of_lt_of_le (by positivity)
      (significant_between (abs_pos.mpr hzero) 10 (by decide)).1
    exact ⟨written, htext, hnonzero written (hsize ▸ hpos),
      fun _ => ⟨hspec, toRat_decimal_signed (significant_neg 10) hsize⟩, absurd hpower⟩
  · obtain ⟨written, htext, hspec, -, hsize⟩ := exists_formatDouble_plain hfinite hpower
    refine ⟨written, htext, hnonzero written (hsize ▸ shown_pos hfinite hpower), (absurd · hpower),
      fun _ => ⟨hspec, toRat_decimal_signed shown_neg hsize, fun exponent hnames => ?_⟩⟩
    obtain ⟨number, written', hround, htext', hspec', -, hsize'⟩ :=
      exists_isPlain_rounded (isPlain_of_not_needsPower hfinite hpower) hnames
    refine ⟨number, hround, ?_⟩
    rw [htext', hspec'.eq_of_size_eq hspec (hsize'.trans hsize.symm)]

theorem exists_written_significant_minus_two_thirds :
    ∃ written : Written,
      formatDouble (ofFraction true 2 3) = .ok (String.ofList ('-' :: written.chars)) ∧
        written.IsPlain ∧ (written.decimal true).toRat = -666666666 / 1000000000 := by
  have hnegative : (ofFraction true 2 3).toRat < 0 := by decide +kernel
  have hshown : shown (ofFraction true 2 3).toRat = -666666666 / 1000000000 := by decide +kernel
  obtain ⟨written, htext, -, -, hplain⟩ :=
    exists_written_significant (x := ofFraction true 2 3) (by decide +kernel) hnegative.ne
  obtain ⟨hspec, hvalue, -⟩ := hplain (by decide +kernel)
  rw [if_pos hnegative] at htext
  rw [decide_eq_true hnegative, hshown] at hvalue
  exact ⟨written, htext, hspec, hvalue⟩

end Display

end SciCalc
