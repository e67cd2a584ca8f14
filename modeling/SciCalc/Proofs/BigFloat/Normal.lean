import SciCalc.Precise.Arithmetic
import SciCalc.Proofs.BigFloat.WholeNumbers

/-! # One form for one number

Every operation ends in a finite number with an odd mantissa, in the one zero, in an infinity or in
what is not a number. So equal numbers are equal as data, and a number that is an integer is *the*
integer.
-/

namespace SciCalc

/-- What holds of every rounded enclosure, and of the fallback, holds of what an enclosure settles
on. -/
theorem Enclosure.settle_induction {α : Type} [DecidableEq α] {P : α → Prop}
    {round : Int → Int → α} {fallback : α} (hround : ∀ middle exponent, P (round middle exponent))
    (hfallback : P fallback) (enclose : Nat → Option Enclosure) (bits : Nat) :
    P (settle enclose round fallback bits) := by
  have hfrom : ∀ fuel extra, P (settleFrom enclose round fallback bits fuel extra) := by
    intro fuel
    induction fuel with
    | zero =>
        intro extra
        unfold settleFrom
        split
        · exact hround _ _
        · exact hfallback
    | succ fuel ih =>
        intro extra
        unfold settleFrom
        split
        next result hresult =>
          obtain ⟨enclosure, -, hsettled⟩ := Option.bind_eq_some_iff.mp hresult
          simp only [settle?] at hsettled
          split at hsettled
          · exact Option.some.inj hsettled ▸ hround _ _
          · cases hsettled
        · exact ih _
  exact hfrom _ _

namespace BigFloat

/-- The mantissa is odd, or the number is zero without an exponent. -/
def IsNormal : BigFloat → Prop
  | finite mantissa exponent => mantissa % 2 = 1 ∨ mantissa = 0 ∧ exponent = 0
  | _ => True

/-- The number is finite and equal to the rational number. -/
def Denotes (x : BigFloat) (q : ℚ) : Prop :=
  ∃ mantissa exponent : Int, x = finite mantissa exponent ∧ (mantissa : ℚ) * 2 ^ exponent = q

/-! ## Rounding -/

theorem isNormal_normal (negative : Bool) (n : Nat) (exponent : Int) :
    (normal negative n exponent).IsNormal := by
  rcases eq_or_ne n 0 with rfl | hn
  · exact .inr ⟨rfl, rfl⟩
  · obtain ⟨places, odd, hodd, rfl⟩ := Nat.exists_eq_two_pow_mul_odd hn
    have hmod := Nat.odd_iff.mp hodd
    rw [Nat.mul_comm, normal_mul_two_pow, normal_of_odd negative hmod]
    left
    cases negative <;> simp only [if_true, Bool.false_eq_true, if_false] <;> omega

theorem isNormal_ofScaled (bits : Nat) (mantissa exponent : Int) :
    (ofScaled bits mantissa exponent).IsNormal := isNormal_normal _ _ _

theorem isNormal_ofFraction (bits : Nat) (negative : Bool) (num den : Nat) (exponent : Int) :
    (ofFraction bits negative num den exponent).IsNormal := isNormal_ofScaled _ _ _

theorem isNormal_ofEnclosure (bits : Nat) (enclose : Nat → Option Enclosure) :
    (ofEnclosure bits enclose).IsNormal :=
  Enclosure.settle_induction (isNormal_ofScaled bits) (show nan.IsNormal from trivial) enclose bits

theorem isNormal_ofDouble (x : Double) : (ofDouble x).IsNormal := by
  cases x with
  | nan => trivial
  | inf negative => trivial
  | finite negative mantissa exponent canonical => exact isNormal_normal _ _ _

theorem isNormal_zero : zero.IsNormal := .inr ⟨rfl, rfl⟩

theorem isNormal_one : one.IsNormal := .inl rfl

theorem IsNormal.neg {x : BigFloat} (hx : x.IsNormal) : x.neg.IsNormal := by
  cases x with
  | nan => trivial
  | inf negative => trivial
  | finite mantissa exponent =>
      change -mantissa % 2 = 1 ∨ -mantissa = 0 ∧ exponent = 0
      change mantissa % 2 = 1 ∨ mantissa = 0 ∧ exponent = 0 at hx
      omega

theorem isNormal_round (bits : Nat) (x : BigFloat) : (x.round bits).IsNormal := by
  cases x with
  | nan => trivial
  | inf negative => trivial
  | finite mantissa exponent => exact isNormal_ofScaled _ _ _

/-! ## Operations -/

variable (bits : Nat) (x y : BigFloat)

theorem isNormal_addBelow (mantissa exponent lowMantissa lowExponent : Int) :
    (addBelow bits mantissa exponent lowMantissa lowExponent).IsNormal := by
  simp only [addBelow]
  split_ifs <;> exact isNormal_ofScaled _ _ _

theorem isNormal_add : (x.add bits y).IsNormal := by
  unfold add
  split <;> try trivial
  · split_ifs <;> trivial
  · split_ifs
    · exact isNormal_round _ _
    · exact isNormal_round _ _
    · exact isNormal_addBelow _ _ _ _ _
    · exact isNormal_addBelow _ _ _ _ _

theorem isNormal_mul : (x.mul bits y).IsNormal := by
  unfold mul
  split <;> try trivial
  · exact isNormal_ofScaled _ _ _
  · split <;> trivial

theorem isNormal_div : (x.div bits y).IsNormal := by
  unfold div
  split <;> try trivial
  · exact isNormal_zero
  · split_ifs
    · trivial
    · exact isNormal_zero
    · exact isNormal_ofFraction _ _ _ _ _

theorem isNormal_sqrt : (x.sqrt bits).IsNormal := by
  unfold sqrt
  split
  · trivial
  · split <;> trivial
  · split_ifs
    · trivial
    · exact isNormal_zero
    · exact isNormal_ofScaled _ _ _

theorem isNormal_ofAngle {atZero : BigFloat} (hzero : atZero.IsNormal)
    (enclose : Nat → Int → Int → Option Enclosure) :
    (ofAngle bits atZero enclose x).IsNormal := by
  unfold ofAngle
  split
  · split_ifs
    · exact hzero
    · trivial
    · exact isNormal_ofEnclosure _ _
  · trivial

theorem isNormal_ln : (x.ln bits).IsNormal := by
  unfold ln
  split
  · trivial
  · split <;> trivial
  · split
    · trivial
    · exact isNormal_ofEnclosure _ _

theorem isNormal_exp : (x.exp bits).IsNormal := by
  unfold exp
  split
  · trivial
  · split
    · exact isNormal_zero
    · trivial
  · split_ifs
    · exact isNormal_one
    · exact isNormal_zero
    · trivial
    · exact isNormal_ofEnclosure _ _

theorem isNormal_infinitePower (baseIsLarge exponentIsPositive : Bool) :
    (infinitePower baseIsLarge exponentIsPositive).IsNormal := by
  unfold infinitePower
  split
  · trivial
  · exact isNormal_zero

theorem isNormal_positivePower (mantissa : Nat) (exponent power powerExponent : Int) :
    (positivePower bits mantissa exponent power powerExponent).IsNormal := by
  simp only [positivePower]
  split_ifs
  · exact isNormal_infinitePower _ _
  · split
    · exact isNormal_ofScaled _ _ _
    · exact isNormal_ofEnclosure _ _

theorem isNormal_pow : (x.pow bits y).IsNormal := by
  unfold pow
  split
  · exact isNormal_one
  split
  · trivial
  · trivial
  · split
    · trivial
    · simp only
      split
      · exact (isNormal_infinitePower _ _).neg
      · exact isNormal_infinitePower _ _
  · split
    · trivial
    · exact isNormal_infinitePower _ _
  · simp only
    split_ifs
    · trivial
    · exact isNormal_zero
    · trivial
    · exact isNormal_one.neg
    · exact (isNormal_positivePower _ _ _ _ _).neg
    · exact isNormal_one
    · exact isNormal_positivePower _ _ _ _ _

theorem isNormal_factorial : (x.factorial bits).IsNormal := by
  simp only [factorial]
  split_ifs
  · trivial
  · exact isNormal_ofScaled _ _ _
  · exact isNormal_exp _ _

theorem isNormal_ofDecimal (d : Decimal) : (ofDecimal bits d).IsNormal := by
  simp only [ofDecimal]
  split_ifs
  · exact isNormal_zero
  · exact isNormal_ofFraction _ _ _ _ _
  all_goals exact isNormal_ofEnclosure _ _

theorem isNormal_of_ofText? {text : String} (hread : ofText? bits text = some x) : x.IsNormal := by
  obtain ⟨numeral, -, rfl⟩ := Option.map_eq_some_iff.mp hread
  cases numeral with
  | nan => trivial
  | inf negative => trivial
  | decimal d => exact isNormal_ofDecimal _ _

/-! ## Integers -/

variable {x}

/-- A number in normal form that is an integer is the normal form of this integer. -/
theorem IsNormal.eq_ofInt (hx : x.IsNormal) {n : Int} (hn : x.Denotes n) : x = ofInt n := by
  obtain ⟨mantissa, exponent, rfl, hvalue⟩ := hn
  rcases hx with hodd | ⟨rfl, rfl⟩
  · have hexponent : 0 ≤ exponent := by
      by_contra hnegative
      obtain ⟨places, hplaces⟩ := Int.eq_ofNat_of_zero_le (a := -exponent - 1) (by omega)
      obtain rfl : exponent = -((places + 1 : Nat) : Int) := by omega
      -- An odd mantissa has no factor to spare.
      rw [zpow_neg, zpow_natCast, mul_inv_eq_iff_eq_mul₀ (by positivity)] at hvalue
      have hmultiple : mantissa = n * 2 ^ (places + 1) := by exact_mod_cast hvalue
      rw [hmultiple, pow_succ, ← Int.mul_assoc, Int.mul_emod_left] at hodd
      cases hodd
    obtain ⟨places, rfl⟩ := Int.eq_ofNat_of_zero_le hexponent
    have hinteger : mantissa * 2 ^ places = n := by
      rw [zpow_natCast] at hvalue
      exact_mod_cast hvalue
    rw [← hinteger, ofInt_mul_two_pow, normal_of_odd _ (by omega)]
    by_cases hsign : mantissa < 0
    · simp only [hsign, decide_true, if_true]
      congr 1
      omega
    · simp only [hsign, decide_false, Bool.false_eq_true, if_false]
      congr 1
      omega
  · obtain rfl : n = 0 := by
      rw [Int.cast_zero, zero_mul] at hvalue
      exact_mod_cast hvalue.symm
    rfl

theorem denotes_ofInt (n : Int) : (ofInt n).Denotes n := by
  obtain ⟨mantissa, places, hform, -, rfl⟩ := exists_ofInt n
  exact ⟨mantissa, places, hform, by push_cast; rw [zpow_natCast]⟩

end BigFloat

end SciCalc
