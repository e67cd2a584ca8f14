import Mathlib.Algebra.Order.Ring.Int
import Mathlib.Data.Nat.Factorization.Basic
import SciCalc.Precise.Display
import SciCalc.Proofs.Double.Bounds

/-! # Whole numbers of any precision

An integer has one form as a floating-point number, whichever multiple of a power of two it is given
as, and it fits in some bits if it has no more of them in front of the zeros at its end. What fits is
not rounded: sums, differences and products of integers are those of the integers, and an integer
that fits in the bits that the display looks at is shown in full.
-/

namespace SciCalc.BigFloat

/-! ## Normal forms -/

theorem natAbs_mul_two_pow (mantissa : Int) (count : Nat) :
    (mantissa * 2 ^ count).natAbs = mantissa.natAbs * 2 ^ count := by
  rw [Int.natAbs_mul, Int.natAbs_pow]
  rfl

theorem mul_two_pow_neg_iff (mantissa : Int) (count : Nat) :
    mantissa * 2 ^ count < 0 ↔ mantissa < 0 := by
  have hpower : (0 : Int) < 2 ^ count := by positivity
  simp [mul_neg_iff, hpower, hpower.le]

theorem normal_mul_two (negative : Bool) (n : Nat) (exponent : Int) :
    normal negative (n * 2) exponent = normal negative n (exponent + 1) := by
  rcases Nat.eq_zero_or_pos n with rfl | hn
  · rfl
  · have hlog : Nat.log2 (n * 2) = Nat.log2 n + 1 := by
      rw [Nat.mul_comm, Nat.log2_two_mul hn.ne']
    simp [normal, hlog, oddPart, hn.ne']

theorem normal_mul_two_pow (negative : Bool) (n count : Nat) (exponent : Int) :
    normal negative (n * 2 ^ count) exponent = normal negative n (exponent + count) := by
  induction count generalizing exponent with
  | zero => simp
  | succ count ih =>
      rw [Nat.pow_succ, ← Nat.mul_assoc, normal_mul_two, ih, Nat.cast_succ, Int.add_right_comm,
        Int.add_assoc]

theorem normal_of_odd (negative : Bool) {n : Nat} (hodd : n % 2 = 1) (exponent : Int) :
    normal negative n exponent = finite (if negative then -(n : Int) else n) exponent := by
  have hn : n ≠ 0 := by omega
  have hpart : oddPart (Nat.log2 n) n exponent = (n, exponent) := by
    cases Nat.log2 n with
    | zero => rfl
    | succ fuel => rw [oddPart, if_neg (by omega)]
  simp only [normal, hn, if_false, hpart]

theorem ofInt_mul_two_pow (mantissa : Int) (places : Nat) :
    ofInt (mantissa * 2 ^ places) = normal (mantissa < 0) mantissa.natAbs places := by
  rw [ofInt, natAbs_mul_two_pow, normal_mul_two_pow, Int.zero_add,
    decide_eq_decide.mpr (mul_two_pow_neg_iff mantissa places)]

/-- The form of an integer is an integer times a power of two. -/
theorem exists_ofInt (n : Int) :
    ∃ (mantissa : Int) (places : Nat), ofInt n = finite mantissa places ∧
      ofInt (-n) = finite (-mantissa) places ∧ mantissa * 2 ^ places = n := by
  rcases eq_or_ne n 0 with rfl | hn
  · exact ⟨0, 0, rfl, rfl, rfl⟩
  · obtain ⟨places, odd, hodd, hsplit⟩ := Nat.exists_eq_two_pow_mul_odd (Int.natAbs_ne_zero.mpr hn)
    have hform : ∀ negative, normal negative n.natAbs 0 =
        finite (if negative then -(odd : Int) else odd) places := by
      intro negative
      rw [hsplit, Nat.mul_comm, normal_mul_two_pow, normal_of_odd negative (Nat.odd_iff.mp hodd),
        Int.zero_add]
    have hcast : (n.natAbs : Int) = odd * 2 ^ places := by
      rw [hsplit, Nat.cast_mul, Nat.cast_pow, Int.mul_comm]
      rfl
    rw [ofInt, ofInt, Int.natAbs_neg, hform, hform]
    rcases lt_or_gt_of_ne hn with hnegative | hpositive
    · refine ⟨-odd, places, by simp [hnegative], by simp [hnegative.le], ?_⟩
      rw [Int.neg_mul, ← hcast]
      omega
    · refine ⟨odd, places, by simp [hpositive.le], by simp [hpositive], ?_⟩
      rw [← hcast]
      omega

/-! ## What is not rounded -/

variable {bits : Nat}

theorem natAbs_lt_of_mul {mantissa : Int} {places : Nat}
    (hbits : (mantissa * 2 ^ places).natAbs < 2 ^ bits) : mantissa.natAbs < 2 ^ bits := by
  rw [natAbs_mul_two_pow] at hbits
  exact lt_of_le_of_lt (Nat.le_mul_of_pos_right _ (Nat.two_pow_pos _)) hbits

/-- A mantissa of no more bits than the precision is kept, with zeros behind it or without. -/
theorem ofScaled_mul_two_pow {mantissa : Int} (hmantissa : mantissa.natAbs < 2 ^ bits)
    (count : Nat) (exponent : Int) :
    ofScaled bits (mantissa * 2 ^ count) exponent =
      normal (mantissa < 0) mantissa.natAbs (exponent + count) := by
  rcases eq_or_ne mantissa 0 with rfl | hnonzero
  · simp [ofScaled, normal, roundDiv]
  have hexcess : Nat.log2 (mantissa.natAbs * 2 ^ count) + 1 - bits ≤ count := by
    have hbelow : Nat.log2 (mantissa.natAbs * 2 ^ count) < bits + count := by
      rw [Nat.log2_lt (Nat.mul_ne_zero (Int.natAbs_ne_zero.mpr hnonzero) (by positivity)),
        Nat.pow_add]
      exact Nat.mul_lt_mul_of_pos_right hmantissa (Nat.two_pow_pos _)
    omega
  obtain ⟨rest, hrest⟩ := Nat.exists_eq_add_of_le' hexcess
  simp only [ofScaled, natAbs_mul_two_pow, mul_two_pow_neg_iff]
  generalize Nat.log2 (mantissa.natAbs * 2 ^ count) + 1 - bits = excess at hrest
  subst hrest
  rw [Nat.one_shiftLeft, Nat.pow_add, ← Nat.mul_assoc, roundDiv_of_mul _ (Nat.two_pow_pos _),
    normal_mul_two_pow]
  congr 1
  push_cast
  ring

/-- The integer has no more than `bits` bits in front of the zeros at its end. -/
def FitsIn (bits : Nat) (n : Int) : Prop :=
  ∃ (mantissa : Int) (places : Nat), mantissa.natAbs < 2 ^ bits ∧ mantissa * 2 ^ places = n

theorem fitsIn_of_natAbs_lt {n : Int} (hn : n.natAbs < 2 ^ bits) : FitsIn bits n :=
  ⟨n, 0, hn, by rw [pow_zero, mul_one]⟩

theorem FitsIn.natAbs {n : Int} (hfits : FitsIn bits n) : FitsIn bits n.natAbs := by
  obtain ⟨mantissa, places, hmantissa, rfl⟩ := hfits
  exact ⟨mantissa.natAbs, places, hmantissa, by rw [natAbs_mul_two_pow]; push_cast; rfl⟩

/-- An integer that fits is kept, whichever multiple of a power of two it is given as. -/
theorem ofScaled_of_fitsIn {mantissa : Int} {places : Nat}
    (hfits : FitsIn bits (mantissa * 2 ^ places)) :
    ofScaled bits mantissa places = ofInt (mantissa * 2 ^ places) := by
  obtain ⟨short, zeros, hshort, hvalue⟩ := hfits
  rw [ofInt_mul_two_pow]
  rcases Nat.le_total places zeros with hle | hle
  · obtain ⟨more, rfl⟩ := Nat.exists_eq_add_of_le hle
    obtain rfl : short * 2 ^ more = mantissa := by
      rw [pow_add, Int.mul_left_comm, Int.mul_comm] at hvalue
      exact mul_right_cancel₀ (by positivity) hvalue
    rw [ofScaled_mul_two_pow hshort, natAbs_mul_two_pow, normal_mul_two_pow,
      decide_eq_decide.mpr (mul_two_pow_neg_iff short more)]
  · obtain ⟨more, rfl⟩ := Nat.exists_eq_add_of_le hle
    obtain rfl : short = mantissa * 2 ^ more := by
      rw [pow_add, Int.mul_left_comm, Int.mul_comm (2 ^ zeros)] at hvalue
      exact mul_right_cancel₀ (by positivity) hvalue
    have hkept := ofScaled_mul_two_pow (natAbs_lt_of_mul hshort) 0 (zeros + more : Nat)
    rwa [pow_zero, mul_one, Nat.cast_zero, add_zero] at hkept

theorem ofScaled_eq_ofInt (mantissa : Int) (places : Nat)
    (hbits : (mantissa * 2 ^ places).natAbs < 2 ^ bits) :
    ofScaled bits mantissa places = ofInt (mantissa * 2 ^ places) :=
  ofScaled_of_fitsIn (fitsIn_of_natAbs_lt hbits)

theorem natAbs_lt_of_normal (hbits : 0 < bits) {negative : Bool} {n : Nat} {exponent : Int}
    {mantissa place : Int} (hn : n ≤ 2 ^ bits)
    (hnormal : normal negative n exponent = finite mantissa place) :
    mantissa.natAbs < 2 ^ bits := by
  have hsize : ∀ odd : Nat, odd % 2 = 1 → odd ≤ 2 ^ bits → odd < 2 ^ bits := by
    intro odd hodd hle
    refine lt_of_le_of_ne hle fun hpower => ?_
    obtain ⟨fewer, rfl⟩ := Nat.exists_eq_succ_of_ne_zero hbits.ne'
    rw [hpower, Nat.pow_succ, Nat.mul_mod_left] at hodd
    cases hodd
  rcases eq_or_ne n 0 with rfl | hpos
  · cases hnormal
    exact Nat.two_pow_pos bits
  · obtain ⟨places, odd, hodd, rfl⟩ := Nat.exists_eq_two_pow_mul_odd hpos
    have hmod := Nat.odd_iff.mp hodd
    have hle : odd ≤ 2 ^ bits := (Nat.le_mul_of_pos_left _ (Nat.two_pow_pos _)).trans hn
    rw [Nat.mul_comm, normal_mul_two_pow, normal_of_odd negative hmod] at hnormal
    cases hnormal
    cases negative <;> simpa using hsize odd hmod hle

/-- What is rounded to some bits has no more. -/
theorem natAbs_lt_of_ofScaled (hbits : 0 < bits) {mantissa exponent rounded place : Int}
    (hrounded : ofScaled bits mantissa exponent = finite rounded place) :
    rounded.natAbs < 2 ^ bits := by
  refine natAbs_lt_of_normal hbits (roundDiv_le ?_ ?_) hrounded
  · rw [Nat.one_shiftLeft]
    exact Nat.two_pow_pos _
  · rw [Nat.one_shiftLeft, ← Nat.pow_add]
    refine (Nat.lt_log2_self (n := mantissa.natAbs)).le.trans ?_
    exact Nat.pow_le_pow_right Nat.two_pos (by omega)

/-- An integer is its own floor, rounded to some bits, just if it fits in as many. -/
theorem floorRounded_ofInt_eq_iff (hbits : 0 < bits) (n : Int) :
    (ofInt n).floorRounded bits = ofInt n ↔ FitsIn bits n := by
  obtain ⟨mantissa, places, hform, -, rfl⟩ := exists_ofInt n
  have hfloor : (finite mantissa places).floorRounded bits = ofScaled bits mantissa places := by
    rw [floorRounded, if_pos (Int.natCast_nonneg places)]
  rw [hform, hfloor]
  constructor
  · intro hkept
    exact ⟨mantissa, places, natAbs_lt_of_ofScaled hbits hkept, rfl⟩
  · intro hfits
    rw [ofScaled_of_fitsIn hfits, hform]

/-! ## Magnitudes -/

theorem log2_mul_two_pow {n : Nat} (hn : n ≠ 0) (count : Nat) :
    Nat.log2 (n * 2 ^ count) = Nat.log2 n + count := by
  induction count with
  | zero => rw [pow_zero, mul_one, Nat.add_zero]
  | succ count ih =>
      rw [Nat.pow_succ, ← Nat.mul_assoc, Nat.mul_comm, Nat.log2_two_mul (by positivity), ih,
        Nat.add_assoc]

theorem lt_of_log2_lt {m n : Nat} (hlog : Nat.log2 m < Nat.log2 n) : m < n := by
  by_contra hnot
  rw [Nat.log2_eq_log_two, Nat.log2_eq_log_two] at hlog
  exact absurd (Nat.log_mono_right (not_lt.mp hnot)) (not_le.mpr hlog)

/-- Integers are compared in magnitude. -/
theorem isSmaller_ofInt (m n : Int) :
    (ofInt m).isSmaller (ofInt n) = decide (m.natAbs < n.natAbs) := by
  obtain ⟨left, leftPlaces, hleft, -, rfl⟩ := exists_ofInt m
  obtain ⟨right, rightPlaces, hright, -, rfl⟩ := exists_ofInt n
  rw [hleft, hright, natAbs_mul_two_pow, natAbs_mul_two_pow, isSmaller]
  rcases eq_or_ne right 0 with rfl | hrightNonzero
  · simp [isZero]
  rcases eq_or_ne left 0 with rfl | hleftNonzero
  · simp [isZero, hrightNonzero, Int.natAbs_pos.mpr hrightNonzero]
  have hleftTop : (finite left leftPlaces).top = Nat.log2 (left.natAbs * 2 ^ leftPlaces) := by
    rw [log2_mul_two_pow (Int.natAbs_ne_zero.mpr hleftNonzero), top, Nat.cast_add]
  have hrightTop : (finite right rightPlaces).top = Nat.log2 (right.natAbs * 2 ^ rightPlaces) := by
    rw [log2_mul_two_pow (Int.natAbs_ne_zero.mpr hrightNonzero), top, Nat.cast_add]
  rw [if_neg (by simpa [isZero] using hrightNonzero)]
  rcases lt_trichotomy (finite left leftPlaces).top (finite right rightPlaces).top
    with hbelow | hequal | habove
  · have hless := lt_of_log2_lt (m := left.natAbs * 2 ^ leftPlaces)
      (n := right.natAbs * 2 ^ rightPlaces) (by omega)
    rw [if_pos (by simp [hbelow]), decide_eq_true hless]
  · rw [if_neg (by simp [isZero, hleftNonzero, hequal]), if_neg hequal.not_gt, decide_eq_decide,
      scaleTwo]
    -- The leading bits have the same place: the mantissas decide, brought to the same exponent.
    split
    next hnonneg =>
      obtain ⟨more, rfl⟩ := Nat.exists_eq_add_of_le (show rightPlaces ≤ leftPlaces by omega)
      rw [show ((rightPlaces + more : Nat) - rightPlaces : Int).toNat = more by omega,
        Nat.shiftLeft_eq, Nat.add_comm rightPlaces, Nat.pow_add, ← Nat.mul_assoc,
        Nat.mul_lt_mul_right (Nat.two_pow_pos _)]
    next hnegative =>
      obtain ⟨more, rfl⟩ := Nat.exists_eq_add_of_le (show leftPlaces ≤ rightPlaces by omega)
      rw [show (-((leftPlaces : Int) - (leftPlaces + more : Nat))).toNat = more by omega,
        Nat.shiftLeft_eq, Nat.add_comm leftPlaces, Nat.pow_add, ← Nat.mul_assoc,
        Nat.mul_lt_mul_right (Nat.two_pow_pos _)]
  · have hlarger := lt_of_log2_lt (m := right.natAbs * 2 ^ rightPlaces)
      (n := left.natAbs * 2 ^ leftPlaces) (by omega)
    rw [if_neg (by simp [isZero, hleftNonzero, habove.le]), if_pos habove,
      decide_eq_false hlarger.not_gt]

/-! ## Operations -/

/-- The low bits of an integer do not lie below the bits that count. -/
theorem addBelow_eq_ofInt {left right : Int} {leftPlaces rightPlaces : Nat}
    (hplaces : leftPlaces < bits)
    (hsum : (left * 2 ^ leftPlaces + right * 2 ^ rightPlaces).natAbs < 2 ^ bits) :
    addBelow bits left leftPlaces right rightPlaces =
      ofInt (left * 2 ^ leftPlaces + right * 2 ^ rightPlaces) := by
  simp only [addBelow]
  rw [if_neg (by omega)]
  split
  next hle =>
    obtain ⟨shift, rfl⟩ := Nat.exists_eq_add_of_le (Int.ofNat_le.mp hle)
    have hvalue : left * 2 ^ (rightPlaces + shift) + right * 2 ^ rightPlaces =
        (left * 2 ^ shift + right) * 2 ^ rightPlaces := by ring
    rw [hvalue] at hsum ⊢
    rw [Int.shiftLeft_eq, show ((rightPlaces + shift : Nat) - rightPlaces : Int).toNat = shift by omega]
    exact ofScaled_eq_ofInt _ _ hsum
  next hnot =>
    obtain ⟨shift, rfl⟩ := Nat.exists_eq_add_of_le (show leftPlaces ≤ rightPlaces by omega)
    have hvalue : left * 2 ^ leftPlaces + right * 2 ^ (leftPlaces + shift) =
        (left + right * 2 ^ shift) * 2 ^ leftPlaces := by ring
    rw [hvalue] at hsum ⊢
    rw [Int.shiftLeft_eq, show ((leftPlaces + shift : Nat) - leftPlaces : Int).toNat = shift by omega]
    exact ofScaled_eq_ofInt _ _ hsum

theorem places_lt_of_mul {mantissa : Int} {places : Nat} (hmantissa : mantissa ≠ 0)
    (hbits : (mantissa * 2 ^ places).natAbs < 2 ^ bits) : places < bits := by
  rw [natAbs_mul_two_pow] at hbits
  refine (Nat.pow_lt_pow_iff_right Nat.one_lt_two).mp (lt_of_le_of_lt ?_ hbits)
  exact Nat.le_mul_of_pos_left _ (Int.natAbs_pos.mpr hmantissa)

section Operations

variable {m n : Int} (hm : m.natAbs < 2 ^ bits) (hn : n.natAbs < 2 ^ bits)

include hm hn

theorem add_ofInt (hsum : (m + n).natAbs < 2 ^ bits) :
    (ofInt m).add bits (ofInt n) = ofInt (m + n) := by
  obtain ⟨left, leftPlaces, hleft, -, rfl⟩ := exists_ofInt m
  obtain ⟨right, rightPlaces, hright, -, rfl⟩ := exists_ofInt n
  rw [hleft, hright, add]
  split_ifs with hzero hzero' htop
  · rw [hzero, Int.zero_mul, Int.zero_add]
    exact ofScaled_eq_ofInt right rightPlaces hn
  · rw [hzero', Int.zero_mul, Int.add_zero]
    exact ofScaled_eq_ofInt left leftPlaces hm
  · exact addBelow_eq_ofInt (places_lt_of_mul hzero hm) hsum
  · rw [Int.add_comm] at hsum ⊢
    exact addBelow_eq_ofInt (places_lt_of_mul hzero' hn) hsum

theorem sub_ofInt (hdifference : (m - n).natAbs < 2 ^ bits) :
    (ofInt m).sub bits (ofInt n) = ofInt (m - n) := by
  have hneg : (ofInt n).neg = ofInt (-n) := by
    obtain ⟨mantissa, places, hform, hopposite, -⟩ := exists_ofInt n
    rw [hform, hopposite, neg]
  rw [sub, hneg, Int.sub_eq_add_neg]
  exact add_ofInt hm (by rwa [Int.natAbs_neg]) hdifference

omit hm hn in
theorem mul_ofInt (hproduct : (m * n).natAbs < 2 ^ bits) :
    (ofInt m).mul bits (ofInt n) = ofInt (m * n) := by
  obtain ⟨left, leftPlaces, hleft, -, rfl⟩ := exists_ofInt m
  obtain ⟨right, rightPlaces, hright, -, rfl⟩ := exists_ofInt n
  have hvalue : left * 2 ^ leftPlaces * (right * 2 ^ rightPlaces) =
      left * right * 2 ^ (leftPlaces + rightPlaces) := by ring
  rw [hvalue] at hproduct ⊢
  rw [hleft, hright, mul, ← Int.natCast_add]
  exact ofScaled_eq_ofInt _ _ hproduct

end Operations

/-! ## Reading -/

theorem ofFraction_one (negative : Bool) {n : Nat} (hn : n < 2 ^ bits) :
    ofFraction bits negative n 1 0 = ofInt (if negative then -(n : Int) else n) := by
  unfold ofFraction
  dsimp only
  generalize bits + 3 + Nat.log2 1 - Nat.log2 n = shift
  rw [Nat.div_one, Nat.mul_one, if_pos rfl, Nat.add_zero, Nat.shiftLeft_eq]
  have hsize : (if negative then -(n : Int) else n).natAbs < 2 ^ bits := by
    cases negative <;> simpa using hn
  have hvalue : (if negative then -((2 * (n * 2 ^ shift) : Nat) : Int)
      else ((2 * (n * 2 ^ shift) : Nat) : Int)) =
        (if negative then -(n : Int) else n) * 2 ^ (shift + 1) := by
    cases negative <;> · simp only [if_true, Bool.false_eq_true, if_false]; push_cast; ring
  rw [hvalue, ofScaled_mul_two_pow hsize, ofInt]
  congr 1
  push_cast
  ring

/-- A decimal without a fraction is read as the integer that it is. -/
theorem ofDecimal_whole (negative : Bool) {n : Nat} (hn : n < 2 ^ bits) :
    ofDecimal bits ⟨negative, n, 0⟩ = ofInt (if negative then -(n : Int) else n) := by
  have hscaled : scaleTen n 1 0 = (n, 1) := by simp [scaleTen, tenPow]
  simp only [ofDecimal, hscaled]
  split
  next hzero =>
    subst hzero
    cases negative <;> rfl
  · rw [if_pos (by decide)]
    exact ofFraction_one negative hn

theorem lt_bitsOfPlaces {places : Nat} (hplaces : 40 ≤ places) : 53 < bitsOfPlaces places := by
  refine lt_of_lt_of_le ?_ (le_max_right _ _)
  refine le_roundDiv (by decide) ?_
  calc 54 * tenPow 16 ≤ (40 + 1) * digitBits := by decide
    _ ≤ (places + 1) * digitBits := Nat.mul_le_mul_right _ (by omega)

/-- What a double represents exactly, a number with forty places does too. -/
theorem lt_two_pow_bitsOfPlaces {places n : Nat} (hplaces : 40 ≤ places) (hn : n ≤ mantissaBound) :
    n < 2 ^ bitsOfPlaces places :=
  lt_of_le_of_lt hn (Nat.pow_lt_pow_right Nat.one_lt_two (lt_bitsOfPlaces hplaces))

end SciCalc.BigFloat

namespace SciCalc.Precise

open BigFloat

/-- An integer that fits in 53 bits is shown in full, whatever the number of digits. -/
theorem format_ofInt {n : Int} (hfits : FitsIn inspectionBits n) (hn : n.natAbs < 10 ^ 18)
    (digits : Nat) : format (ofInt n) digits = toString n := by
  have hwhole := (floorRounded_ofInt_eq_iff (show 0 < inspectionBits by decide) n).mpr hfits
  obtain ⟨mantissa, places, hform, -, rfl⟩ := exists_ofInt n
  have hfloor : (finite mantissa places).floor = mantissa * 2 ^ places := by
    rw [floor, if_pos (Int.natCast_nonneg places), Int.toNat_natCast, Int.shiftLeft_eq]
  rw [hform] at hwhole ⊢
  unfold format
  dsimp only
  split
  next hzero =>
    rw [hzero, Int.zero_mul]
    rfl
  next hnonzero =>
    have hsmall : ((finite mantissa places).abs.round inspectionBits).isSmaller wholeLimit =
        true := by
      have habs := hfits.natAbs
      rw [natAbs_mul_two_pow, Nat.cast_mul, Nat.cast_pow, Nat.cast_ofNat] at habs
      rw [natAbs_mul_two_pow] at hn
      rw [BigFloat.abs, BigFloat.round, ofScaled_of_fitsIn habs, wholeLimit, isSmaller_ofInt,
        natAbs_mul_two_pow]
      exact decide_eq_true hn
    rw [hwhole, hsmall, if_pos (by simp), hfloor]

end SciCalc.Precise
