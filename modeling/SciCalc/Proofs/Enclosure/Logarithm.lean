import Mathlib.Analysis.SpecialFunctions.Log.Base
import Mathlib.Analysis.SpecialFunctions.Log.Deriv
import SciCalc.Proofs.Enclosure.Bounds

/-! # Enclosures contain the logarithms

The power series of a logarithm is summed with integers: each power is computed from the one before
it and cut off, and so is each term. What is lost in a term is a few units, so the sum is off by a
few units for each term, and the rest of the series is less than one unit. That is within the errors
that the enclosures allow for, so they do contain the logarithms that they stand for.
-/

namespace SciCalc.Enclosure

open Finset (range)

/-! ## Series of cut powers -/

/-- The sum of a power divided by an odd number, the next power divided by the next odd number and
so on, each quotient cut off. -/
def cutSum (next : Nat → Nat) : Nat → Nat → Nat → Nat
  | 0, _, _ => 0
  | fuel + 1, power, odd => power / odd + cutSum next fuel (next power) (odd + 2)

theorem cutSum_zero {next : Nat → Nat} (hzero : next 0 = 0) (fuel odd : Nat) :
    cutSum next fuel 0 odd = 0 := by
  induction fuel generalizing odd with
  | zero => rfl
  | succ fuel ih => rw [cutSum, hzero, ih, Nat.zero_div]

theorem oddSum_eq_cutSum (square fuel power odd : Nat) :
    oddSum square fuel power odd = cutSum (· / square) fuel power odd := by
  induction fuel generalizing power odd with
  | zero => rfl
  | succ fuel ih =>
      rw [oddSum]
      split
      next hzero => rw [hzero, cutSum_zero (Nat.zero_div square), Nat.cast_zero]
      next => rw [cutSum, ih, Nat.cast_add]

theorem artanhSum_eq_cutSum (places square fuel power odd : Nat) :
    artanhSum places square fuel power odd =
      cutSum (fun power => (power * square) >>> places) fuel power odd := by
  induction fuel generalizing power odd with
  | zero => rfl
  | succ fuel ih =>
      rw [artanhSum]
      split
      next hzero => rw [hzero, cutSum_zero (by simp)]
      next => rw [cutSum, ih]

/-- Cutting powers off as long as they are at most two units short of the exact ones. -/
def KeepsNear (x : ℝ) (next : Nat → Nat) (most : Nat) : Prop :=
  ∀ (power : Nat) (exact : ℝ), power ≤ most → power ≤ exact → exact ≤ power + 2 →
    next power ≤ most ∧ (next power : ℝ) ≤ exact * x ^ 2 ∧ exact * x ^ 2 ≤ next power + 2

/-- A term is short of the exact one by at most three units. -/
theorem term_error {power : Nat} {exact : ℝ} (hlower : power ≤ exact) (hupper : exact ≤ power + 2)
    (index : Nat) :
    ((power / (2 * index + 1) : Nat) : ℝ) ≤ exact / (2 * index + 1) ∧
      exact / (2 * index + 1) ≤ (power / (2 * index + 1) : Nat) + 3 := by
  have hodd : (1 : ℝ) ≤ 2 * index + 1 := by
    have hindex : (0 : ℝ) ≤ index := Nat.cast_nonneg index
    linarith
  have hoddPos : (0 : ℝ) < 2 * index + 1 := by linarith
  have hcast : ((2 * index + 1 : Nat) : ℝ) = 2 * index + 1 := by push_cast; rfl
  constructor
  · calc ((power / (2 * index + 1) : Nat) : ℝ) ≤ (power : ℝ) / (2 * index + 1 : Nat) :=
          Nat.cast_div_le
      _ ≤ exact / (2 * index + 1) := by rw [hcast]; gcongr
  · have hquotient : (power : ℝ) < ((power / (2 * index + 1) : Nat) + 1) * (2 * index + 1) := by
      have hless := Nat.lt_mul_div_succ power (Nat.succ_pos (2 * index))
      rw [← hcast, mul_comm]
      exact_mod_cast hless
    rw [div_le_iff₀ hoddPos]
    nlinarith

/-- The sum is short of the exact one by at most three units for each term. -/
theorem cutSum_error {x : ℝ} {next : Nat → Nat} {most : Nat} (hnext : KeepsNear x next most)
    (fuel index : Nat) {power : Nat} {exact : ℝ} (hmost : power ≤ most) (hlower : power ≤ exact)
    (hupper : exact ≤ power + 2) :
    (cutSum next fuel power (2 * index + 1) : ℝ) ≤
        ∑ i ∈ range fuel, exact * x ^ (2 * i) / (2 * (index + i : Nat) + 1) ∧
      ∑ i ∈ range fuel, exact * x ^ (2 * i) / (2 * (index + i : Nat) + 1) ≤
        cutSum next fuel power (2 * index + 1) + 3 * fuel := by
  induction fuel generalizing index power exact with
  | zero => simp [cutSum]
  | succ fuel ih =>
      obtain ⟨hmost', hlower', hupper'⟩ := hnext power exact hmost hlower hupper
      obtain ⟨hrestLower, hrestUpper⟩ := ih (index + 1) hmost' hlower' hupper'
      obtain ⟨htermLower, htermUpper⟩ := term_error hlower hupper index
      have hrest : ∑ i ∈ range fuel, exact * x ^ (2 * (i + 1)) / (2 * (index + (i + 1) : Nat) + 1) =
          ∑ i ∈ range fuel, exact * x ^ 2 * x ^ (2 * i) / (2 * (index + 1 + i : Nat) + 1) := by
        refine Finset.sum_congr rfl fun i _ => ?_
        rw [mul_add, pow_add, Nat.add_comm i 1, ← Nat.add_assoc]
        ring
      rw [Finset.sum_range_succ', hrest, cutSum, show 2 * index + 1 + 2 = 2 * (index + 1) + 1 by ring]
      simp only [Nat.mul_zero, pow_zero, mul_one, Nat.add_zero]
      push_cast at htermLower htermUpper hrestLower hrestUpper ⊢
      constructor <;> linarith

/-- The inverse hyperbolic tangent, as half of a logarithm. -/
noncomputable def artanh (x : ℝ) : ℝ := 1 / 2 * Real.log ((1 + x) / (1 - x))

/-- The series of cut powers of a number up to one third is the inverse hyperbolic tangent in units
of `2 ^ -places`, but for a few units for each place. -/
theorem cutSum_near_artanh {x : ℝ} (hx : 0 ≤ x) (hthird : x ≤ 1 / 3) {next : Nat → Nat}
    {power places : Nat} (hnext : KeepsNear x next power) (hlower : power ≤ 2 ^ places * x)
    (hupper : 2 ^ places * x ≤ power + 2) :
    |(cutSum next (places + 2) power 1 : ℝ) - 2 ^ places * artanh x| ≤ 3 * places + 7 := by
  obtain ⟨hsumLower, hsumUpper⟩ := cutSum_error hnext (places + 2) 0 le_rfl hlower hupper
  have hseries := Real.sum_range_sub_log_div_le (x := x) (by rw [abs_of_nonneg hx]; linarith)
    (places + 2)
  have hsum : ∑ i ∈ range (places + 2), 2 ^ places * x * x ^ (2 * i) / (2 * (0 + i : Nat) + 1) =
      2 ^ places * ∑ i ∈ range (places + 2), x ^ (2 * i + 1) / (2 * i + 1) := by
    rw [Finset.mul_sum]
    refine Finset.sum_congr rfl fun i _ => ?_
    rw [Nat.zero_add, pow_succ]
    ring
  -- What is left of the series falls faster than the units get smaller.
  have htail : 2 ^ places * (|x| ^ (2 * (places + 2) + 1) / (1 - x ^ 2)) ≤ 1 := by
    have hsquare : x ^ 2 ≤ 1 / 9 := by nlinarith
    have hpower : |x| ^ (2 * (places + 2) + 1) ≤ (1 / 2) ^ places * (1 / 3) := by
      rw [abs_of_nonneg hx, show 2 * (places + 2) + 1 = 2 * places + 5 by ring, pow_add, pow_mul]
      refine mul_le_mul (pow_le_pow_left₀ (sq_nonneg x) (by linarith) places) ?_ (by positivity)
        (by positivity)
      calc x ^ 5 ≤ (1 / 3) ^ 5 := pow_le_pow_left₀ hx hthird 5
        _ ≤ 1 / 3 := by norm_num
    calc 2 ^ places * (|x| ^ (2 * (places + 2) + 1) / (1 - x ^ 2))
        ≤ 2 ^ places * ((1 / 2) ^ places * (1 / 3) / (8 / 9)) := by
          gcongr
          linarith
      _ = (2 * (1 / 2)) ^ places * (3 / 8) := by rw [mul_pow]; ring
      _ ≤ 1 := by norm_num
  rw [hsum] at hsumLower hsumUpper
  have hscaled : |2 ^ places * artanh x -
      2 ^ places * ∑ i ∈ range (places + 2), x ^ (2 * i + 1) / (2 * i + 1)| ≤ 1 := by
    rw [← mul_sub, abs_mul, abs_of_pos (by positivity)]
    exact (mul_le_mul_of_nonneg_left hseries (by positivity)).trans htail
  push_cast at hsumLower hsumUpper
  rw [abs_le] at hscaled ⊢
  constructor <;> linarith

/-! ## The logarithm of two -/

theorem keepsNear_div {n : Nat} (hn : 3 ≤ n) (most : Nat) :
    KeepsNear (1 / n) (· / (n * n)) most := by
  intro power exact hmost hlower hupper
  have hnPos : (0 : ℝ) < n := by exact_mod_cast (show 0 < n by omega)
  have hsquare : (9 : ℝ) ≤ n * n := by exact_mod_cast Nat.mul_le_mul hn hn
  have hsquarePos : (0 : ℝ) < n * n := by linarith
  have hexact : exact * (1 / n) ^ 2 = exact / (n * n) := by
    field_simp
  rw [hexact]
  refine ⟨(Nat.div_le_self _ _).trans hmost, ?_, ?_⟩
  · calc ((power / (n * n) : Nat) : ℝ) ≤ (power : ℝ) / (n * n : Nat) := Nat.cast_div_le
      _ ≤ exact / (n * n) := by push_cast; gcongr
  · have hquotient : (power : ℝ) < (n * n) * ((power / (n * n) : Nat) + 1) := by
      have hless := Nat.lt_mul_div_succ power (show 0 < n * n by positivity)
      exact_mod_cast hless
    rw [div_le_iff₀ hsquarePos]
    nlinarith

theorem artanhReciprocal_near {n : Nat} (hn : 3 ≤ n) (places : Nat) :
    |(artanhReciprocal n places : ℝ) - 2 ^ places * artanh (1 / n)| ≤ 3 * places + 7 := by
  have hnReal : (3 : ℝ) ≤ n := by exact_mod_cast hn
  have hstart : ((1 <<< places : Nat) : ℝ) = 2 ^ places := by
    rw [Nat.one_shiftLeft]
    push_cast
    rfl
  rw [artanhReciprocal, oddSum_eq_cutSum, Int.cast_natCast]
  refine cutSum_near_artanh (by positivity) (by gcongr) (keepsNear_div hn _) ?_ ?_
  · rw [mul_one_div, ← hstart]
    exact Nat.cast_div_le
  · have hless := Nat.lt_mul_div_succ (1 <<< places) (show 0 < n by omega)
    rw [mul_one_div, div_le_iff₀ (by linarith), ← hstart]
    have hless' : ((1 <<< places : Nat) : ℝ) < n * (((1 <<< places) / n : Nat) + 1) := by
      exact_mod_cast hless
    nlinarith

/-- Three inverse hyperbolic tangents whose arguments have small prime factors make up the
logarithm of two. -/
theorem log_two_eq :
    18 * artanh (1 / (26 : Nat)) - 2 * artanh (1 / (4801 : Nat)) + 8 * artanh (1 / (8749 : Nat)) =
      Real.log 2 := by
  have hfirst : ((1 + 1 / ((26 : Nat) : ℝ)) / (1 - 1 / ((26 : Nat) : ℝ))) = 27 / 25 := by norm_num
  have hsecond : ((1 + 1 / ((4801 : Nat) : ℝ)) / (1 - 1 / ((4801 : Nat) : ℝ))) = 2401 / 2400 := by
    norm_num
  have hthird : ((1 + 1 / ((8749 : Nat) : ℝ)) / (1 - 1 / ((8749 : Nat) : ℝ))) = 4375 / 4374 := by
    norm_num
  have hpowers : (27 / 25 : ℝ) ^ 9 * (4375 / 4374) ^ 4 = 2 * (2401 / 2400) := by norm_num
  have hlogs := congrArg Real.log hpowers
  rw [Real.log_mul (by norm_num) (by norm_num), Real.log_mul (by norm_num) (by norm_num),
    Real.log_pow, Real.log_pow] at hlogs
  simp only [artanh, hfirst, hsecond, hthird]
  push_cast at hlogs
  linarith

/-- What is known up to one of the larger units is known up to two of them after the shift. -/
theorem shiftRight_near {n : Int} {shift : Nat} {r : ℝ} (hnear : |n - 2 ^ shift * r| ≤ 2 ^ shift) :
    |((n >>> shift : Int) : ℝ) - r| ≤ 2 := by
  have hpower : (0 : ℝ) < 2 ^ shift := by positivity
  have hsplit : (n : ℝ) = 2 ^ shift * (n / (2 ^ shift : Nat) : Int) + (n % (2 ^ shift : Nat) : Int) := by
    exact_mod_cast (Int.mul_ediv_add_emod n (2 ^ shift : Nat)).symm
  have hremainder : (0 : ℝ) ≤ (n % (2 ^ shift : Nat) : Int) := by
    exact_mod_cast Int.emod_nonneg n (by positivity)
  have hremainder' : ((n % (2 ^ shift : Nat) : Int) : ℝ) < 2 ^ shift := by
    exact_mod_cast Int.emod_lt_of_pos n (by positivity)
  rw [Int.shiftRight_eq_div_pow]
  rw [abs_le] at hnear ⊢
  constructor
  · refine le_of_mul_le_mul_left ?_ hpower
    linarith
  · refine le_of_mul_le_mul_left ?_ hpower
    linarith

/-- The logarithm of two is known up to two units. -/
theorem lnTwoPlaces_near (places : Nat) :
    |(lnTwoPlaces places : ℝ) - 2 ^ places * Real.log 2| ≤ 2 := by
  have hguard : 168 * places + 1204 ≤ 2 ^ guardPlaces places := by
    have hlog : places + 1 < 2 ^ (Nat.log2 (places + 1) + 1) := Nat.lt_log2_self
    rw [guardPlaces, Nat.pow_add]
    rw [Nat.pow_succ] at hlog
    omega
  have hshort : guardPlaces places ≤ places + 12 := by
    have hlog := Nat.log2_lt (n := places + 1) (k := places + 1) (by omega) |>.mpr
      Nat.lt_two_pow_self
    rw [guardPlaces]
    omega
  simp only [lnTwoPlaces]
  generalize guardPlaces places = guard at hguard hshort ⊢
  have hfirst := artanhReciprocal_near (show 3 ≤ 26 by decide) (places + guard)
  have hsecond := artanhReciprocal_near (show 3 ≤ 4801 by decide) (places + guard)
  have hthird := artanhReciprocal_near (show 3 ≤ 8749 by decide) (places + guard)
  have htwo := log_two_eq
  generalize artanhReciprocal 26 (places + guard) = first at hfirst ⊢
  generalize artanhReciprocal 4801 (places + guard) = second at hsecond ⊢
  generalize artanhReciprocal 8749 (places + guard) = third at hthird ⊢
  have hunit : (168 * places + 1204 : ℝ) ≤ 2 ^ guard := by exact_mod_cast hguard
  have hplaces : (guard : ℝ) ≤ places + 12 := by exact_mod_cast hshort
  have hsum : |((18 * first - 2 * second + 8 * third : Int) : ℝ) -
      2 ^ guard * (2 ^ places * Real.log 2)| ≤ 2 ^ guard := by
    rw [← htwo, ← mul_assoc, ← pow_add, Nat.add_comm guard places]
    push_cast at hfirst hsecond hthird ⊢
    rw [abs_le] at hfirst hsecond hthird ⊢
    constructor <;> linarith
  exact shiftRight_near hsum

/-! ## Logarithms -/

/-- The real number lies in the enclosure. -/
def Contains (x : Enclosure) (r : ℝ) : Prop :=
  |r - x.middle * (2 : ℝ) ^ x.exponent| ≤ x.error * (2 : ℝ) ^ x.exponent

theorem contains_iff {middle : Int} {error places : Nat} {r : ℝ} :
    Contains ⟨middle, error, -places⟩ r ↔ |middle - 2 ^ places * r| ≤ error := by
  have hpower : (0 : ℝ) < 2 ^ places := by positivity
  have hscaled : r - middle * ((2 : ℝ) ^ places)⁻¹ =
      -((middle - 2 ^ places * r) * ((2 : ℝ) ^ places)⁻¹) := by
    field_simp
    ring
  rw [Contains, zpow_neg, zpow_natCast, hscaled, abs_neg, abs_mul, abs_of_pos (inv_pos.mpr hpower)]
  exact mul_le_mul_iff_left₀ (inv_pos.mpr hpower)

theorem contains_zero : Contains (exactly 0 0) 0 := by
  simp [Contains, exactly]

/-- A shift to the right cuts less than one unit. -/
theorem shiftRight_bounds (n places : Nat) :
    ((n >>> places : Nat) : ℝ) * 2 ^ places ≤ n ∧
      (n : ℝ) ≤ ((n >>> places : Nat) + 1) * 2 ^ places := by
  rw [Nat.shiftRight_eq_div_pow]
  have hle := Nat.div_mul_le_self n (2 ^ places)
  have hless := Nat.lt_mul_div_succ n (Nat.two_pow_pos places)
  rw [Nat.mul_comm] at hless
  exact ⟨by exact_mod_cast hle, by exact_mod_cast hless.le⟩

section Argument

variable {x : ℝ} (hthird : x ≤ 1 / 3) {argument places : Nat} (hplaces : 2 ≤ places)
  (hlower : argument ≤ 2 ^ places * x) (hupper : 2 ^ places * x ≤ argument + 1)

include hthird hplaces hlower hupper

/-- The cut square of a cut argument is at most two units short of the exact one. -/
theorem square_near :
    (((argument * argument) >>> places : Nat) : ℝ) ≤ 2 ^ places * x ^ 2 ∧
      2 ^ places * x ^ 2 ≤ ((argument * argument) >>> places : Nat) + 2 := by
  have hunit : (4 : ℝ) ≤ 2 ^ places := by
    exact_mod_cast Nat.pow_le_pow_right Nat.two_pos hplaces
  have hunitPos : (0 : ℝ) < 2 ^ places := by linarith
  have hx : 0 ≤ x := by
    have hnonneg : (0 : ℝ) ≤ argument := Nat.cast_nonneg argument
    nlinarith
  obtain ⟨hsquareLower, hsquareUpper⟩ := shiftRight_bounds (argument * argument) places
  generalize (argument * argument) >>> places = square at hsquareLower hsquareUpper ⊢
  push_cast at hsquareLower hsquareUpper
  constructor
  · refine le_of_mul_le_mul_right ?_ hunitPos
    calc (square : ℝ) * 2 ^ places ≤ argument * argument := hsquareLower
      _ ≤ (2 ^ places * x) * (2 ^ places * x) := by gcongr
      _ = 2 ^ places * x ^ 2 * 2 ^ places := by ring
  · refine le_of_mul_le_mul_right ?_ hunitPos
    calc 2 ^ places * x ^ 2 * 2 ^ places = (2 ^ places * x) * (2 ^ places * x) := by ring
      _ ≤ (argument + 1) * (argument + 1) := by gcongr
      _ = argument * argument + (2 * argument + 1) := by ring
      _ ≤ (square + 2) * 2 ^ places := by nlinarith

theorem keepsNear_shiftRight :
    KeepsNear x (fun power => (power * ((argument * argument) >>> places)) >>> places)
      argument := by
  have hunit : (4 : ℝ) ≤ 2 ^ places := by
    exact_mod_cast Nat.pow_le_pow_right Nat.two_pos hplaces
  have hunitPos : (0 : ℝ) < 2 ^ places := by linarith
  have hx : 0 ≤ x := by
    have hnonneg : (0 : ℝ) ≤ argument := Nat.cast_nonneg argument
    nlinarith
  have hsquare := square_near hthird hplaces hlower hupper
  generalize (argument * argument) >>> places = square at hsquare ⊢
  intro power exact hmost hpowerLower hpowerUpper
  have hpowerThird : (power : ℝ) ≤ 2 ^ places * (1 / 3) := by
    calc (power : ℝ) ≤ argument := by exact_mod_cast hmost
      _ ≤ 2 ^ places * x := hlower
      _ ≤ 2 ^ places * (1 / 3) := by gcongr
  obtain ⟨hnextLower, hnextUpper⟩ := shiftRight_bounds (power * square) places
  have hsmall : square ≤ 2 ^ places := by
    have hreal : (square : ℝ) ≤ 2 ^ places := by nlinarith [hsquare.1]
    exact_mod_cast hreal
  have hnextMost : (power * square) >>> places ≤ argument := by
    rw [Nat.shiftRight_eq_div_pow]
    refine (Nat.div_le_of_le_mul ?_).trans hmost
    rw [Nat.mul_comm]
    exact Nat.mul_le_mul_right power hsmall
  refine ⟨hnextMost, ?_, ?_⟩
  · refine le_of_mul_le_mul_right (hnextLower.trans ?_) hunitPos
    push_cast
    calc (power : ℝ) * square ≤ exact * (2 ^ places * x ^ 2) :=
          mul_le_mul hpowerLower hsquare.1 (Nat.cast_nonneg _)
            ((Nat.cast_nonneg power).trans hpowerLower)
      _ = exact * x ^ 2 * 2 ^ places := by ring
  · refine le_of_mul_le_mul_right ?_ hunitPos
    push_cast at hnextUpper
    calc exact * x ^ 2 * 2 ^ places ≤ (power + 2) * x ^ 2 * 2 ^ places := by gcongr
      _ = power * (2 ^ places * x ^ 2) + 2 * x ^ 2 * 2 ^ places := by ring
      _ ≤ power * (square + 2) + 2 * x ^ 2 * 2 ^ places := by gcongr; exact hsquare.2
      _ = power * square + 2 * power + 2 * x ^ 2 * 2 ^ places := by ring
      _ ≤ _ := by nlinarith

end Argument

/-- Twice the inverse hyperbolic tangent as it is summed for a logarithm. -/
theorem series_near {num den places : Nat} (hden : 0 < den) (hthird : 3 * num ≤ den)
    (hplaces : 2 ≤ places) :
    |((2 * artanhSum places ((((num <<< places) / den) * ((num <<< places) / den)) >>> places)
      (places + 2) ((num <<< places) / den) 1 : Nat) : ℝ) -
        2 ^ places * (2 * artanh (num / den))| ≤ 6 * places + 14 := by
  have hdenPos : (0 : ℝ) < den := by exact_mod_cast hden
  have hx : (0 : ℝ) ≤ num / den := by positivity
  have hx' : (num : ℝ) / den ≤ 1 / 3 := by
    rw [div_le_div_iff₀ hdenPos (by norm_num)]
    have hcast : (3 : ℝ) * num ≤ den := by exact_mod_cast hthird
    linarith
  have hexact : 2 ^ places * ((num : ℝ) / den) = (num <<< places : Nat) / den := by
    rw [Nat.shiftLeft_eq]
    push_cast
    ring
  have hlower : (((num <<< places) / den : Nat) : ℝ) ≤ 2 ^ places * ((num : ℝ) / den) := by
    rw [hexact]
    exact Nat.cast_div_le
  have hupper : 2 ^ places * ((num : ℝ) / den) ≤ ((num <<< places) / den : Nat) + 1 := by
    rw [hexact, div_le_iff₀ hdenPos]
    have hless := Nat.lt_mul_div_succ (num <<< places) hden
    rw [Nat.mul_comm] at hless
    exact_mod_cast hless.le
  have hnear := cutSum_near_artanh hx hx' (keepsNear_shiftRight hx' hplaces hlower hupper) hlower
    (by linarith)
  rw [artanhSum_eq_cutSum]
  generalize cutSum _ (places + 2) ((num <<< places) / den) 1 = sum at hnear ⊢
  push_cast
  rw [abs_le] at hnear ⊢
  constructor <;> linarith

/-- A multiple of the logarithm of two is known up to two units. -/
theorem multiple_near (count : Int) (places : Nat) :
    |(((count * lnTwoPlaces (places + (Nat.log2 count.natAbs + 2))) >>>
        (Nat.log2 count.natAbs + 2) : Int) : ℝ) - 2 ^ places * (count * Real.log 2)| ≤ 2 := by
  have hreach : 2 * count.natAbs ≤ 2 ^ (Nat.log2 count.natAbs + 2) := by
    have hless : count.natAbs < 2 ^ (Nat.log2 count.natAbs + 1) := Nat.lt_log2_self
    rw [Nat.pow_succ]
    omega
  generalize Nat.log2 count.natAbs + 2 = reach at hreach ⊢
  have hnear := lnTwoPlaces_near (places + reach)
  generalize lnTwoPlaces (places + reach) = two at hnear ⊢
  have hreachReal : 2 * |(count : ℝ)| ≤ 2 ^ reach := by
    rw [← Int.cast_abs, Int.abs_eq_natAbs]
    exact_mod_cast hreach
  have hpower : (0 : ℝ) < 2 ^ reach := by positivity
  have hproduct : |((count * two : Int) : ℝ) - 2 ^ reach * (2 ^ places * (count * Real.log 2))| ≤
      2 ^ reach := by
    calc |((count * two : Int) : ℝ) - 2 ^ reach * (2 ^ places * (count * Real.log 2))|
        = |(count : ℝ)| * |(two : ℝ) - 2 ^ (places + reach) * Real.log 2| := by
          rw [← abs_mul]
          congr 1
          push_cast
          ring
      _ ≤ |(count : ℝ)| * 2 := by gcongr
      _ ≤ 2 ^ reach := by linarith
  exact shiftRight_near hproduct

theorem artanh_neg (x : ℝ) : artanh (-x) = -artanh x := by
  rw [artanh, artanh, sub_neg_eq_add, ← sub_eq_add_neg, ← inv_div (1 + x) (1 - x), Real.log_inv]
  ring

/-- The logarithm of a positive number from its factors two and from what they leave. -/
theorem log_eq_artanh {mantissa : Nat} (hmantissa : 0 < mantissa) (exponent : Int) (width : Nat) :
    Real.log (mantissa * (2 : ℝ) ^ exponent) = (exponent + width : Int) * Real.log 2 +
      2 * artanh (((mantissa : ℝ) - (2 ^ width : Nat)) / (mantissa + 2 ^ width : Nat)) := by
  have hpos : (0 : ℝ) < mantissa := by exact_mod_cast hmantissa
  have hunit : (0 : ℝ) < 2 ^ width := by positivity
  have hratio : (1 + ((mantissa : ℝ) - (2 ^ width : Nat)) / (mantissa + 2 ^ width : Nat)) /
      (1 - ((mantissa : ℝ) - (2 ^ width : Nat)) / (mantissa + 2 ^ width : Nat)) =
        mantissa / 2 ^ width := by
    push_cast
    have hsum : (mantissa : ℝ) + 2 ^ width ≠ 0 := by positivity
    field_simp
    ring
  rw [artanh, hratio, Real.log_mul hpos.ne' (by positivity), Real.log_zpow,
    Real.log_div hpos.ne' hunit.ne', Real.log_pow]
  push_cast
  ring

/-- The series is summed without the sign, which is put in front of it. -/
theorem signed_series_near {difference : Int} {sum series places : Nat} {bound : ℝ}
    (hseries : |(series : ℝ) - 2 ^ places * (2 * artanh (difference.natAbs / sum))| ≤ bound) :
    |(((if difference < 0 then -(series : Int) else series) : Int) : ℝ) -
      2 ^ places * (2 * artanh (difference / sum))| ≤ bound := by
  have hcast : (difference.natAbs : ℝ) = |(difference : ℝ)| := by
    rw [← Int.cast_abs, Int.abs_eq_natAbs, Int.cast_natCast]
  rw [hcast] at hseries
  split
  next hnegative =>
    rw [abs_of_neg (Int.cast_lt_zero.mpr hnegative), neg_div, artanh_neg] at hseries
    rw [← abs_neg]
    refine le_of_eq_of_le (congrArg _ ?_) hseries
    push_cast
    ring
  next hnonneg =>
    rwa [abs_of_nonneg (Int.cast_nonneg (not_lt.mp hnonneg))] at hseries

/-- The logarithm lies in its enclosure. -/
theorem contains_ln (bits : Nat) {mantissa : Nat} (hmantissa : 0 < mantissa) (exponent : Int) :
    (ln bits mantissa exponent).Contains (Real.log (mantissa * (2 : ℝ) ^ exponent)) := by
  obtain ⟨hlower, hupper⟩ := width_bounds hmantissa
  rw [ln_eq, log_eq_artanh hmantissa exponent (width mantissa), Nat.one_shiftLeft]
  have hunit : 0 < 2 ^ width mantissa := Nat.two_pow_pos _
  generalize 2 ^ width mantissa = unit at hlower hupper hunit ⊢
  generalize exponent + (width mantissa : Int) = count
  split
  next hone =>
    -- The number is one.
    simp only [Bool.and_eq_true, decide_eq_true_eq] at hone
    obtain ⟨rfl, hnum⟩ := hone
    have hequal : (mantissa : ℝ) - unit = 0 := by exact_mod_cast hnum
    simpa [hequal, artanh] using contains_zero
  next =>
    generalize (if count = 0 then _ else 0) = loss
    have hplaces : 2 ≤ bits + 8 + loss := by omega
    generalize bits + 8 + loss = places at hplaces ⊢
    have hseries := series_near (show 0 < mantissa + unit by omega)
      (show 3 * ((mantissa : Int) - unit).natAbs ≤ mantissa + unit by omega) hplaces
    have hmultiple := multiple_near count places
    rw [contains_iff]
    generalize (count * lnTwoPlaces (places + (count.natAbs.log2 + 2))) >>>
      (count.natAbs.log2 + 2) = multiple at hmultiple ⊢
    generalize 2 * artanhSum places _ (places + 2) _ 1 = series at hseries ⊢
    have hsigned := signed_series_near hseries
    push_cast at hsigned hmultiple ⊢
    rw [abs_le] at hsigned hmultiple ⊢
    constructor <;> linarith

/-! ## Quotients -/

theorem contains_mul_zpow_iff {middle : Int} {error : Nat} {exponent : Int} {r : ℝ} :
    Contains ⟨middle, error, exponent⟩ (r * (2 : ℝ) ^ exponent) ↔ |r - middle| ≤ error := by
  have hpower : (0 : ℝ) < (2 : ℝ) ^ exponent := by positivity
  rw [Contains, ← sub_mul, abs_mul, abs_of_pos hpower]
  exact mul_le_mul_iff_left₀ hpower

/-- A quotient of integers is cut by less than one. -/
theorem ediv_bounds (a : Int) {b : Nat} (hb : 0 < b) :
    ((a / (b : Int) : Int) : ℝ) ≤ (a : ℝ) / b ∧ (a : ℝ) / b ≤ ((a / (b : Int) : Int) : ℝ) + 1 := by
  have hbPos : (0 : Int) < b := by exact_mod_cast hb
  have hlower := Int.ediv_mul_le a hbPos.ne'
  have hupper := Int.lt_ediv_add_one_mul_self a hbPos
  rw [le_div_iff₀ (by exact_mod_cast hb), div_le_iff₀ (by exact_mod_cast hb)]
  exact ⟨by exact_mod_cast hlower, by exact_mod_cast hupper.le⟩

/-- What the errors of a dividend and a divisor move the quotient by. -/
theorem abs_div_sub_div_le {dividend divisor dividend' divisor' error error' size : ℝ}
    (hdividend : |dividend - dividend'| ≤ error) (hdivisor : |divisor - divisor'| ≤ error')
    (hpos : 0 < divisor' - error') (hsize : |dividend' / divisor'| ≤ size) :
    |dividend / divisor - dividend' / divisor'| ≤ (error + size * error') / (divisor' - error') := by
  have hleast : divisor' - error' ≤ divisor := by linarith [neg_abs_le (divisor - divisor')]
  have hdivisorPos : 0 < divisor := hpos.trans_le hleast
  have hdivisorPos' : 0 < divisor' := by linarith [abs_nonneg (divisor - divisor')]
  have herror : 0 ≤ error := (abs_nonneg _).trans hdividend
  have herror' : 0 ≤ error' := (abs_nonneg _).trans hdivisor
  have hnonneg : 0 ≤ size := (abs_nonneg _).trans hsize
  have hsplit : dividend / divisor - dividend' / divisor' =
      ((dividend - dividend') + dividend' / divisor' * (divisor' - divisor)) / divisor := by
    field_simp
    ring
  rw [hsplit, abs_div, abs_of_pos hdivisorPos]
  refine div_le_div₀ (by positivity) ?_ hpos hleast
  refine (abs_add_le _ _).trans ?_
  rw [abs_mul, abs_sub_comm _ divisor]
  gcongr

/-- A quotient of numbers that are known up to errors, against the cut quotient. -/
theorem quotient_near {dividend divisor : ℝ} {middle quotient : Int} {middle' error error' shift : Nat}
    (hdividend : |dividend - middle| ≤ error) (hdivisor : |divisor - middle'| ≤ error')
    (herror : 2 * error' < middle') (hquotient : (middle <<< shift) / (middle' : Int) = quotient) :
    |dividend * 2 ^ shift / divisor - quotient| ≤
      (((error <<< shift) + (quotient.natAbs + 1) * error') / (middle' - error') + 2 : Nat) := by
  have hleastPos : (0 : ℝ) < (middle' : ℝ) - error' := by
    rw [sub_pos]
    exact_mod_cast (show error' < middle' by omega)
  obtain ⟨hcutLower, hcutUpper⟩ := ediv_bounds (middle <<< shift) (show 0 < middle' by omega)
  rw [hquotient, Int.shiftLeft_eq] at hcutLower hcutUpper
  push_cast at hcutLower hcutUpper
  have hsize : |middle * 2 ^ shift / (middle' : ℝ)| ≤ quotient.natAbs + 1 := by
    have hcast : ((quotient.natAbs : Nat) : ℝ) = |(quotient : ℝ)| := by
      rw [← Int.cast_abs, Int.abs_eq_natAbs, Int.cast_natCast]
    rw [hcast, abs_le]
    have hupper := le_abs_self (quotient : ℝ)
    have hlower := neg_abs_le (quotient : ℝ)
    constructor <;> linarith
  have hshifted : |dividend * 2 ^ shift - middle * 2 ^ shift| ≤ error * 2 ^ shift := by
    rw [← sub_mul, abs_mul, abs_of_pos (by positivity : (0 : ℝ) < 2 ^ shift)]
    gcongr
  have hmoved := abs_div_sub_div_le hshifted hdivisor hleastPos hsize
  have hrounded : ((error : ℝ) * 2 ^ shift + (quotient.natAbs + 1) * error') /
      ((middle' : ℝ) - error') ≤
        (((error <<< shift) + (quotient.natAbs + 1) * error') / (middle' - error') : Nat) + 1 := by
    have hupper := (ediv_bounds ((error <<< shift) + (quotient.natAbs + 1) * error' : Nat)
      (show 0 < middle' - error' by omega)).2
    rw [← Int.natCast_div, Int.cast_natCast, Int.cast_natCast, Nat.cast_sub (by omega)] at hupper
    refine le_of_eq_of_le ?_ hupper
    rw [Nat.shiftLeft_eq]
    push_cast
    rfl
  rw [abs_le] at hmoved ⊢
  rw [Nat.cast_add, Nat.cast_ofNat]
  constructor <;> linarith

/-- A quotient lies in the quotient of the enclosures. -/
theorem contains_div? {bits : Nat} {x y quotient : Enclosure} {r s : ℝ} (hx : x.Contains r)
    (hy : y.Contains s) (hpos : 0 < y.middle) (hquotient : div? bits x y = some quotient) :
    quotient.Contains (r / s) := by
  obtain ⟨middle, error, exponent⟩ := x
  obtain ⟨middle', error', exponent'⟩ := y
  obtain ⟨n, rfl⟩ := Int.eq_ofNat_of_zero_le hpos.le
  have hscaled : ∀ (r : ℝ) (exponent : Int), r = r / (2 : ℝ) ^ exponent * (2 : ℝ) ^ exponent :=
    fun r exponent => (div_mul_cancel₀ r (by positivity)).symm
  rw [hscaled r exponent, contains_mul_zpow_iff] at hx
  rw [hscaled s exponent', contains_mul_zpow_iff] at hy
  simp only [div?, Int.natAbs_natCast] at hquotient
  split at hquotient
  · simp at hquotient
  next herror =>
    obtain rfl := Option.some.inj hquotient
    generalize bits + 2 + Nat.log2 n - Nat.log2 middle.natAbs = shift
    have hratio : r / s = r / (2 : ℝ) ^ exponent * 2 ^ shift / (s / (2 : ℝ) ^ exponent') *
        (2 : ℝ) ^ (exponent - exponent' - shift) := by
      rw [zpow_sub₀ (by norm_num), zpow_sub₀ (by norm_num), zpow_natCast]
      field_simp
    rw [hratio, contains_mul_zpow_iff]
    exact quotient_near hx hy (not_le.mp herror) rfl

/-! ## Decimal logarithms -/

/-- The error is far below what two doubles of a decimal logarithm differ by. -/
def IsNarrow (x : Enclosure) : Prop :=
  ∃ places : Nat, x.exponent = -places ∧ 2 ^ 60 * x.error ≤ 2 ^ places

/-- The error of a quotient whose dividend and divisor have small errors, in a unit in which the
quotient is not large. -/
theorem quotient_error_le {places n size unit error divisorError : Nat} (hn : 2 ^ places ≤ n)
    (hunit : 2 ^ 64 ≤ unit) (hsize : size ≤ 2 ^ 12 * unit)
    (herror : 2 ^ 66 * error ≤ 2 ^ places * unit)
    (hdivisorError : 2 ^ 80 * divisorError ≤ 2 ^ places) :
    2 ^ 60 * ((error + (size + 1) * divisorError) / (n - divisorError) + 2) ≤ unit := by
  have hplaces := Nat.two_pow_pos places
  obtain ⟨least, hleast⟩ : ∃ least, least = n - divisorError := ⟨_, rfl⟩
  have hhalf : 2 ^ places ≤ 2 * least := by omega
  rw [← hleast]
  -- Both parts of the error are small against the least divisor.
  have hdividendPart : 2 ^ 66 * error ≤ 2 * (least * unit) := by
    calc 2 ^ 66 * error ≤ 2 ^ places * unit := herror
      _ ≤ 2 * least * unit := Nat.mul_le_mul_right _ hhalf
      _ = 2 * (least * unit) := Nat.mul_assoc ..
  have hdivisorPart : 2 ^ 80 * ((size + 1) * divisorError) ≤ 2 ^ 14 * (least * unit) := by
    calc 2 ^ 80 * ((size + 1) * divisorError) = (size + 1) * (2 ^ 80 * divisorError) :=
          Nat.mul_left_comm ..
      _ ≤ 2 ^ 13 * unit * (2 * least) := Nat.mul_le_mul (by omega) (hdivisorError.trans hhalf)
      _ = 2 ^ 14 * (least * unit) := by ring
  have hquotientError : 2 ^ 62 * ((error + (size + 1) * divisorError) / least) ≤ unit := by
    refine Nat.le_of_mul_le_mul_left ?_ (show 0 < least by omega)
    have hfloor := Nat.mul_div_le (error + (size + 1) * divisorError) least
    rw [Nat.mul_left_comm]
    refine (Nat.mul_le_mul_left _ hfloor).trans ?_
    omega
  omega

theorem isNarrow_div? {bits places loss : Nat} {middle divisor : Int} {error divisorError : Nat}
    {quotient : Enclosure} (hbits : 93 ≤ bits) (hmiddle : middle.natAbs < 2 ^ (places + loss + 12))
    (herror : 2 ^ 66 * error ≤ 2 ^ (places + loss)) (hdivisor : ((2 ^ places : Nat) : Int) ≤ divisor)
    (hdivisorError : 2 ^ 80 * divisorError ≤ 2 ^ places)
    (hquotient : div? bits ⟨middle, error, -(places + loss : Nat)⟩
      ⟨divisor, divisorError, -(places : Nat)⟩ = some quotient)
    (hbelow : quotient.IsBelow (2 ^ 12)) : quotient.IsNarrow := by
  obtain ⟨n, rfl⟩ := Int.eq_ofNat_of_zero_le (show 0 ≤ divisor by omega)
  have hn : 2 ^ places ≤ n := by exact_mod_cast hdivisor
  have hplacesPos := Nat.two_pow_pos places
  have hlogDivisor : places ≤ Nat.log2 n := (Nat.le_log2 (by omega)).mpr hn
  have hlogMiddle : Nat.log2 middle.natAbs ≤ places + loss + 12 := by
    rcases Nat.eq_zero_or_pos middle.natAbs with hzero | hpos
    · rw [hzero, Nat.log2_zero]
      exact Nat.zero_le _
    · exact ((Nat.log2_lt hpos.ne').mpr hmiddle).le
  obtain ⟨unitPlaces, hexponent, hsize⟩ := hbelow
  simp only [div?, Int.natAbs_natCast] at hquotient
  split at hquotient
  · simp at hquotient
  obtain rfl := Option.some.inj hquotient
  simp only at hexponent hsize ⊢
  generalize hshift : bits + 2 + Nat.log2 n - Nat.log2 middle.natAbs = shift at hexponent hsize ⊢
  obtain rfl : unitPlaces = loss + shift := by
    push_cast at hexponent
    omega
  have hroom : 64 ≤ loss + shift := by omega
  refine ⟨loss + shift, hexponent, ?_⟩
  dsimp only
  have hunit : 2 ^ 64 ≤ 2 ^ (loss + shift) := Nat.pow_le_pow_right Nat.two_pos hroom
  have hpower : 2 ^ (places + loss) * 2 ^ shift = 2 ^ places * 2 ^ (loss + shift) := by
    rw [← Nat.pow_add, ← Nat.pow_add, Nat.add_assoc]
  rw [Nat.shiftLeft_eq] at hsize ⊢
  generalize 2 ^ (loss + shift) = unit at hunit hpower hsize ⊢
  refine quotient_error_le hn hunit
    ((Nat.le_add_right _ _).trans hsize) ?_ hdivisorError
  calc 2 ^ 66 * (error * 2 ^ shift) = 2 ^ 66 * error * 2 ^ shift := (Nat.mul_assoc ..).symm
    _ ≤ 2 ^ (places + loss) * 2 ^ shift := Nat.mul_le_mul_right _ herror
    _ = 2 ^ places * unit := hpower

theorem error_lt_two_pow {places : Nat} (hplaces : 109 ≤ places) :
    2 ^ 80 * (8 * (places + 4)) ≤ 2 ^ places := by
  obtain ⟨extra, rfl⟩ := Nat.exists_eq_add_of_le hplaces
  have hextra : extra < 2 ^ extra := Nat.lt_two_pow_self
  rw [Nat.pow_add]
  omega

/-- The enclosures of the decimal logarithm contain it and are narrow from the first one on. -/
theorem exists_log10?_contains {bits : Nat} (hbits : 93 ≤ bits) {mantissa : Nat}
    (hmantissa : 0 < mantissa) {exponent : Int}
    (hfactors : (exponent + width mantissa).natAbs ≤ 1100) :
    ∃ x, log10? bits mantissa exponent = some x ∧
      x.Contains (Real.logb 10 (mantissa * (2 : ℝ) ^ exponent)) ∧ x.IsNarrow := by
  have hcontains := contains_ln (bits + 8) hmantissa exponent
  have hten := contains_ln (bits + 8) (show 0 < 10 by decide) 0
  unfold log10?
  rcases ln_bounds (bits + 8) hmantissa exponent with hone | ⟨places, middle, hln, hplaces, hmiddle⟩
  · rw [hone] at hcontains ⊢
    have hzero : Real.log (mantissa * (2 : ℝ) ^ exponent) = 0 := by
      simpa [Contains, exactly] using hcontains
    refine ⟨_, rfl, ?_, 0, rfl, Nat.zero_le _⟩
    rw [Real.logb, hzero, zero_div]
    exact contains_zero
  · obtain ⟨divisor, hlnTen, hdivisor⟩ := ln_ten (bits + 8)
    obtain ⟨loss, rfl⟩ := Nat.exists_eq_add_of_le hplaces
    have herror := error_lt_two_pow (show 109 ≤ bits + 8 + 8 + loss by omega)
    have hdivisorError := error_lt_two_pow (show 109 ≤ bits + 8 + 8 by omega)
    have hbound : middle.natAbs ≤ 1101 * 2 ^ (bits + 8 + 8 + loss) :=
      hmiddle.trans (Nat.mul_le_mul_right _ (by omega))
    obtain ⟨quotient, hquotient, hbelow⟩ :=
      isBelow_div? bits hbound (show 8 * (bits + 8 + 8 + loss + 4) ≤ _ by omega) hdivisor
        (show 2 * (8 * (bits + 8 + 8 + 4)) < _ by omega)
    simp only [hln, hlnTen] at hcontains hten ⊢
    rw [if_neg (by omega)]
    have hpos : (0 : Int) < divisor :=
      lt_of_lt_of_le (by exact_mod_cast Nat.two_pow_pos _) hdivisor
    refine ⟨quotient, hquotient, ?_, ?_⟩
    · have hratio := contains_div? hcontains hten hpos hquotient
      simpa [Real.logb] using hratio
    · refine isNarrow_div? hbits ?_ (by omega) hdivisor hdivisorError hquotient
        (hbelow.mono (by decide))
      have hunit := Nat.two_pow_pos (bits + 8 + 8 + loss)
      rw [Nat.pow_add 2 (bits + 8 + 8 + loss) 12]
      omega

end SciCalc.Enclosure
