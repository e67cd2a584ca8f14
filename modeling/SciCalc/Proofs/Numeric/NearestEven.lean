import Mathlib.Algebra.Order.Floor.Ring
import Mathlib.Tactic.Linarith
import SciCalc.Proofs.Numeric.Quotient

/-! # Rounding to the nearest integer

What rounding means, said of rational numbers: the nearest integer, and of two that are equally near
the even one. Rounding to significant digits is rounding to an integer in units of the last of these
digits. Both are what the quotients of natural numbers are rounded to.
-/

namespace SciCalc

/-- The integer nearest to a rational number, ties to even. -/
def nearestEven (q : ℚ) : ℤ :=
  if Int.fract q < 1 / 2 ∨ (Int.fract q = 1 / 2 ∧ ⌊q⌋ % 2 = 0) then ⌊q⌋ else ⌊q⌋ + 1

/-- The exponent of the last of the significant digits of a number. -/
def significantPlace (count : ℕ) (q : ℚ) : ℤ := Int.log 10 |q| + 1 - count

/-- A rational number rounded to significant digits, ties to even. -/
def significant (count : ℕ) (q : ℚ) : ℚ :=
  nearestEven (q / (10 : ℚ) ^ significantPlace count q) * (10 : ℚ) ^ significantPlace count q

/-! ## The nearest integer -/

/-- No integer is farther from its nearest rational numbers than one half. -/
theorem abs_nearestEven_sub_le (q : ℚ) : |nearestEven q - q| ≤ 1 / 2 := by
  have hfract := Int.floor_add_fract q
  have hnonneg := Int.fract_nonneg q
  have hless := Int.fract_lt_one q
  unfold nearestEven
  split
  next hlower =>
    have hhalf : Int.fract q ≤ 1 / 2 := hlower.elim le_of_lt fun htie => htie.1.le
    rw [abs_le]
    constructor <;> linarith
  next hupper =>
    have hhalf : 1 / 2 ≤ Int.fract q := not_lt.mp fun hlower => hupper (.inl hlower)
    push_cast
    rw [abs_le]
    constructor <;> linarith

/-- An integer that is nearer than one half is the nearest one. -/
theorem nearestEven_eq_of_abs_sub_lt {q : ℚ} {n : ℤ} (hnear : |n - q| < 1 / 2) :
    nearestEven q = n := by
  have hround := abs_le.mp (abs_nearestEven_sub_le q)
  rw [abs_lt] at hnear
  have hlower : ((nearestEven q : ℤ) : ℚ) < (n + 1 : ℤ) := by push_cast; linarith
  have hupper : ((n : ℤ) : ℚ) < (nearestEven q + 1 : ℤ) := by push_cast; linarith
  have hlower' : nearestEven q < n + 1 := by exact_mod_cast hlower
  have hupper' : n < nearestEven q + 1 := by exact_mod_cast hupper
  omega

@[simp] theorem nearestEven_intCast (n : ℤ) : nearestEven n = n :=
  nearestEven_eq_of_abs_sub_lt (by simp)

/-- No integer is nearer. -/
theorem abs_nearestEven_sub_le_abs_sub (q : ℚ) (n : ℤ) : |nearestEven q - q| ≤ |n - q| := by
  by_cases hnear : |n - q| < 1 / 2
  · rw [nearestEven_eq_of_abs_sub_lt hnear]
  · exact (abs_nearestEven_sub_le q).trans (not_lt.mp hnear)

section Unit

variable {unit : ℚ} (hunit : 0 < unit)

include hunit

/-- The distance to a multiple of a unit, in these units. -/
theorem abs_mul_sub (q : ℚ) (n : ℤ) : |n * unit - q| = |n - q / unit| * unit := by
  conv_rhs => rw [← abs_of_pos hunit, ← abs_mul, abs_of_pos hunit, sub_mul,
    div_mul_cancel₀ q hunit.ne']

theorem abs_nearestEven_mul_sub_le (q : ℚ) : |nearestEven (q / unit) * unit - q| ≤ unit / 2 := by
  rw [abs_mul_sub hunit]
  calc |nearestEven (q / unit) - q / unit| * unit ≤ 1 / 2 * unit :=
        mul_le_mul_of_nonneg_right (abs_nearestEven_sub_le _) hunit.le
    _ = unit / 2 := one_div_mul_eq_div 2 unit

/-- No multiple of the unit is nearer. -/
theorem abs_nearestEven_mul_sub_le_abs_sub (q : ℚ) (n : ℤ) :
    |nearestEven (q / unit) * unit - q| ≤ |n * unit - q| := by
  rw [abs_mul_sub hunit, abs_mul_sub hunit]
  exact mul_le_mul_of_nonneg_right (abs_nearestEven_sub_le_abs_sub _ n) hunit.le

end Unit

/-- Rounding does not take a number past an integer. -/
theorem le_nearestEven {q : ℚ} {n : ℤ} (hle : n ≤ q) : n ≤ nearestEven q := by
  have hround := (abs_le.mp (abs_nearestEven_sub_le q)).1
  have hlower : ((n : ℤ) : ℚ) < (nearestEven q + 1 : ℤ) := by push_cast; linarith
  have hlower' : n < nearestEven q + 1 := by exact_mod_cast hlower
  omega

theorem nearestEven_le {q : ℚ} {n : ℤ} (hle : q ≤ n) : nearestEven q ≤ n := by
  have hround := (abs_le.mp (abs_nearestEven_sub_le q)).2
  have hupper : ((nearestEven q : ℤ) : ℚ) < (n + 1 : ℤ) := by push_cast; linarith
  have hupper' : nearestEven q < n + 1 := by exact_mod_cast hupper
  omega

/-- A number is rounded below an even integer if it is below it by more than one half. -/
theorem nearestEven_lt_iff {q : ℚ} {n : ℤ} (heven : n % 2 = 0) :
    nearestEven q < n ↔ q < n - 1 / 2 := by
  have hsplit := Int.floor_add_fract q
  have hnonneg := Int.fract_nonneg q
  have hless := Int.fract_lt_one q
  constructor
  · intro hround
    by_contra! hhalf
    have hfloor : n - 1 ≤ ⌊q⌋ := Int.le_floor.mpr (by push_cast; linarith)
    rcases hfloor.lt_or_eq with hlarge | hbelow
    · have hle := le_nearestEven (q := q) (n := n)
        (le_trans (by exact_mod_cast (show n ≤ ⌊q⌋ by omega)) (Int.floor_le q))
      omega
    · -- At one half or more above an odd integer the even one above it is taken.
      have hfract : 1 / 2 ≤ Int.fract q := by
        rw [← hbelow] at hsplit
        push_cast at hsplit
        linarith
      have hodd : ¬⌊q⌋ % 2 = 0 := by omega
      rw [nearestEven, if_neg (by simp only [not_or, not_lt, hfract, hodd, and_false,
        not_false_eq_true, true_and])] at hround
      omega
  · intro hhalf
    have hnear := (abs_le.mp (abs_nearestEven_sub_le q)).2
    have hcast : ((nearestEven q : ℤ) : ℚ) < n := by linarith
    exact_mod_cast hcast

/-- Only a number halfway between two integers is as far as one half from the nearest one. -/
theorem abs_nearestEven_sub_lt {q : ℚ} (hfract : Int.fract q ≠ 1 / 2) :
    |nearestEven q - q| < 1 / 2 := by
  have hsplit := Int.floor_add_fract q
  have hnonneg := Int.fract_nonneg q
  have hless := Int.fract_lt_one q
  unfold nearestEven
  split
  next hlower =>
    have hhalf := hlower.resolve_right fun htie => hfract htie.1
    rw [abs_lt]
    constructor <;> linarith
  next hupper =>
    have hhalf := lt_of_le_of_ne (not_lt.mp fun hlower => hupper (.inl hlower)) (Ne.symm hfract)
    push_cast
    rw [abs_lt]
    constructor <;> linarith

/-- Opposite numbers are rounded to opposite integers. -/
theorem nearestEven_neg (q : ℚ) : nearestEven (-q) = -nearestEven q := by
  by_cases hhalf : Int.fract q = 1 / 2
  · -- Of two that are equally near, the even one is taken on both sides of zero.
    have hsplit := Int.floor_add_fract q
    have hfloor : ⌊-q⌋ = -⌊q⌋ - 1 := by
      rw [Int.floor_eq_iff]
      push_cast
      constructor <;> linarith
    have hhalf' : Int.fract (-q) = 1 / 2 := by
      have hsplit' := Int.floor_add_fract (-q)
      rw [hfloor] at hsplit'
      push_cast at hsplit'
      linarith
    simp only [nearestEven, hhalf, hhalf', hfloor, lt_irrefl, true_and, false_or]
    split <;> split <;> omega
  · refine nearestEven_eq_of_abs_sub_lt ?_
    have hnear := abs_nearestEven_sub_lt hhalf
    rw [← abs_neg] at hnear
    push_cast
    rwa [sub_neg_eq_add, neg_add_eq_sub, ← neg_sub]

/-- Quotients of natural numbers are rounded to the nearest integer. -/
theorem roundDiv_eq_nearestEven (num : ℕ) {den : ℕ} (hden : 0 < den) :
    (roundDiv num den : ℤ) = nearestEven ((num : ℚ) / den) := by
  have hdenPos : (0 : ℚ) < den := by exact_mod_cast hden
  have hfloor : ⌊(num : ℚ) / den⌋ = (num / den : ℕ) := Rat.floor_natCast_div_natCast num den
  have hfract : Int.fract ((num : ℚ) / den) = (num % den : ℕ) / den :=
    Int.fract_div_natCast_eq_div_natCast_mod
  have hless : Int.fract ((num : ℚ) / den) < 1 / 2 ↔ 2 * (num % den) < den := by
    rw [hfract, div_lt_div_iff₀ hdenPos (by norm_num)]
    norm_cast
    omega
  have htie : Int.fract ((num : ℚ) / den) = 1 / 2 ↔ 2 * (num % den) = den := by
    rw [hfract, div_eq_div_iff hdenPos.ne' (by norm_num)]
    norm_cast
    omega
  simp only [roundDiv, nearestEven, hless, htie, hfloor]
  split
  next hlower => rw [if_pos (.inl hlower)]
  next hnot =>
    split
    next hupper =>
      rw [if_neg (by omega)]
      rfl
    next hnot' =>
      split
      next heven => omega
      next hodd =>
        push_cast
        omega

/-- A fraction is rounded to the nearest integer in units of a power of the base. -/
theorem roundDiv_scaleBy {base : ℕ} (hbase : 0 < base) (num : ℕ) {den : ℕ} (hden : 0 < den)
    (place : ℤ) :
    (roundDiv (scaleBy base num den (-place)).1 (scaleBy base num den (-place)).2 : ℤ) =
      nearestEven ((num : ℚ) / den / (base : ℚ) ^ place) := by
  rw [roundDiv_eq_nearestEven _ (scaleBy_den_pos hbase _ _ hden), ratio_scaleBy, zpow_neg,
    ← div_eq_mul_inv]

end SciCalc
