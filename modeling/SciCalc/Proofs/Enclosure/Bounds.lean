import Mathlib.Algebra.Order.Group.Unbundled.Int
import Mathlib.Data.Nat.Log
import Mathlib.Tactic.Linarith
import Mathlib.Tactic.Positivity
import Mathlib.Tactic.Ring
import SciCalc.Enclosure.Exponential

/-! # Bounds of logarithms

Which double or decimal a logarithm is rounded to depends on enclosures that get narrower and
narrower. However narrow they are, all of them lie within one coarse bound: the power series of the
logarithm falls at least as fast as a geometric series with the ratio 1/9, and the number of factors
two is known. Wherever the enclosures settle, one end of them is what is rounded.
-/

namespace SciCalc.Enclosure

/-! ## Power series -/

/-- Terms that fall to a ninth each add up to at most nine eighths of the first one. -/
theorem oddSum_bounds {square : Nat} (hsquare : 9 ≤ square) (fuel power odd : Nat) :
    0 ≤ oddSum square fuel power odd ∧ 8 * oddSum square fuel power odd ≤ 9 * (power : Int) := by
  induction fuel generalizing power odd with
  | zero => exact ⟨le_rfl, by simp [oddSum]⟩
  | succ fuel ih =>
      obtain ⟨hnonneg, hle⟩ := ih (power / square) (odd + 2)
      have hterm : power / odd ≤ power := Nat.div_le_self power odd
      have hnext : 9 * (power / square) ≤ power :=
        (Nat.mul_le_mul_right _ hsquare).trans (Nat.mul_div_le power square)
      rw [oddSum]
      generalize power / odd = term at hterm ⊢
      generalize power / square = next at hnonneg hle hnext ⊢
      split <;> omega

/-- The sum is at least its first term. -/
theorem le_oddSum {square : Nat} (hsquare : 9 ≤ square) (fuel power : Nat) :
    (power : Int) ≤ oddSum square (fuel + 1) power 1 := by
  have hrest := (oddSum_bounds hsquare fuel (power / square) (1 + 2)).1
  rw [oddSum, Nat.div_one]
  split <;> omega

theorem artanhSum_le {places square : Nat} (hsquare : 9 * square ≤ 2 ^ places)
    (fuel power odd : Nat) : 8 * artanhSum places square fuel power odd ≤ 9 * power := by
  induction fuel generalizing power odd with
  | zero => simp [artanhSum]
  | succ fuel ih =>
      have hle := ih ((power * square) >>> places) (odd + 2)
      have hterm : power / odd ≤ power := Nat.div_le_self power odd
      have hnext : 9 * ((power * square) >>> places) ≤ power := by
        rw [Nat.shiftRight_eq_div_pow]
        have hdiv := Nat.mul_div_le (power * square) (2 ^ places)
        have hproduct := Nat.mul_le_mul_left power hsquare
        refine Nat.le_of_mul_le_mul_left ?_ (Nat.two_pow_pos places)
        calc 2 ^ places * (9 * (power * square / 2 ^ places))
            = 9 * (2 ^ places * (power * square / 2 ^ places)) := by ring
          _ ≤ 9 * (power * square) := Nat.mul_le_mul_left 9 hdiv
          _ = power * (9 * square) := by ring
          _ ≤ power * 2 ^ places := hproduct
          _ = 2 ^ places * power := Nat.mul_comm ..
      rw [artanhSum]
      split <;> omega

/-! ## The logarithm of two -/

theorem artanhReciprocal_bounds {n : Nat} (hn : 3 ≤ n) (places : Nat) :
    ((2 ^ places / n : Nat) : Int) ≤ artanhReciprocal n places ∧
      8 * artanhReciprocal n places ≤ 9 * ((2 ^ places / n : Nat) : Int) := by
  have hsquare : 9 ≤ n * n := Nat.mul_le_mul hn hn
  rw [artanhReciprocal, Nat.one_shiftLeft]
  exact ⟨le_oddSum hsquare (places + 1) _, (oddSum_bounds hsquare _ _ _).2⟩

/-- The logarithm of two lies between one half and one. -/
theorem lnTwoPlaces_bounds {places : Nat} (hplaces : 0 < places) :
    (2 : Int) ^ places ≤ 2 * lnTwoPlaces places ∧ lnTwoPlaces places ≤ (2 : Int) ^ places := by
  simp only [lnTwoPlaces]
  have hguard : 12 ≤ guardPlaces places := Nat.le_add_left 12 _
  generalize guardPlaces places = guard at hguard ⊢
  obtain ⟨hfirst, hfirst'⟩ := artanhReciprocal_bounds (show 3 ≤ 26 by decide) (places + guard)
  obtain ⟨hsecond, hsecond'⟩ :=
    artanhReciprocal_bounds (show 3 ≤ 4801 by decide) (places + guard)
  obtain ⟨hthird, hthird'⟩ := artanhReciprocal_bounds (show 3 ≤ 8749 by decide) (places + guard)
  have hunit : 2 ^ 12 ≤ 2 ^ (places + guard) := Nat.pow_le_pow_right Nat.two_pos (by omega)
  have hsum : ∀ sum : Int, sum = 18 * artanhReciprocal 26 (places + guard) -
      2 * artanhReciprocal 4801 (places + guard) + 8 * artanhReciprocal 8749 (places + guard) →
      ((2 ^ (places + guard) : Nat) : Int) ≤ 2 * sum ∧
        sum ≤ ((2 ^ (places + guard) : Nat) : Int) := by
    intro sum hsum
    generalize 2 ^ (places + guard) = unit at *
    omega
  obtain ⟨hlower, hupper⟩ := hsum _ rfl
  generalize 18 * artanhReciprocal 26 (places + guard) -
      2 * artanhReciprocal 4801 (places + guard) +
      8 * artanhReciprocal 8749 (places + guard) = sum at hlower hupper ⊢
  have hpower : (0 : Int) < 2 ^ guard := by positivity
  rw [Int.shiftRight_eq_div_pow]
  push_cast at hlower hupper ⊢
  obtain ⟨half, rfl⟩ := Nat.exists_eq_succ_of_ne_zero hplaces.ne'
  constructor
  · have hhalf : (2 : Int) ^ half ≤ sum / 2 ^ guard := by
      rw [Int.le_ediv_iff_mul_le hpower, ← pow_add]
      rw [Nat.succ_add, pow_succ] at hlower
      omega
    rw [pow_succ]
    omega
  · rw [pow_add] at hupper
    exact Int.ediv_le_of_le_mul hpower hupper

/-! ## Logarithms -/

/-- Division rounds down, but not past a multiple of the divisor. -/
theorem natAbs_ediv_le {a : Int} {b n : Nat} (hb : 0 < b) (hle : a.natAbs ≤ n * b) :
    (a / (b : Int)).natAbs ≤ n := by
  have hbPos : (0 : Int) < b := by exact_mod_cast hb
  have hupper : a / (b : Int) ≤ n := by
    refine Int.ediv_le_of_le_mul hbPos ?_
    rw [← Nat.cast_mul]
    omega
  have hlower : -(n : Int) ≤ a / (b : Int) :=
    (Int.le_ediv_iff_mul_le hbPos).mpr (by rw [neg_mul, ← Nat.cast_mul]; omega)
  omega

/-- A multiple of the logarithm of two, in units of `2 ^ -places`. -/
theorem natAbs_multiple_le (count : Int) {places reach : Nat} (hplaces : 0 < places + reach) :
    ((count * lnTwoPlaces (places + reach)) >>> reach).natAbs ≤ count.natAbs * 2 ^ places := by
  obtain ⟨hlower, hupper⟩ := lnTwoPlaces_bounds hplaces
  have hunit : ((2 ^ (places + reach) : Nat) : Int) = (2 : Int) ^ (places + reach) := by push_cast; rfl
  have hvalue : (lnTwoPlaces (places + reach)).natAbs ≤ 2 ^ (places + reach) := by omega
  rw [Int.shiftRight_eq_div_pow]
  refine natAbs_ediv_le (Nat.two_pow_pos reach) ?_
  calc (count * lnTwoPlaces (places + reach)).natAbs
      = count.natAbs * (lnTwoPlaces (places + reach)).natAbs := Int.natAbs_mul ..
    _ ≤ count.natAbs * 2 ^ (places + reach) := Nat.mul_le_mul_left _ hvalue
    _ = count.natAbs * 2 ^ places * 2 ^ reach := by rw [Nat.pow_add, Nat.mul_assoc]

/-- Twice the inverse hyperbolic tangent of a number that is at most one third. -/
theorem two_mul_artanhSum_le {num den : Nat} (hden : 0 < den) (hthird : 3 * num ≤ den)
    (places : Nat) :
    2 * artanhSum places ((((num <<< places) / den) * ((num <<< places) / den)) >>> places)
      (places + 2) ((num <<< places) / den) 1 ≤ 2 ^ places := by
  have hargument : 3 * ((num <<< places) / den) ≤ 2 ^ places := by
    rw [Nat.shiftLeft_eq]
    refine Nat.le_of_mul_le_mul_left ?_ hden
    calc den * (3 * (num * 2 ^ places / den)) = 3 * (den * (num * 2 ^ places / den)) := by ring
      _ ≤ 3 * (num * 2 ^ places) := Nat.mul_le_mul_left 3 (Nat.mul_div_le _ _)
      _ = 3 * num * 2 ^ places := (Nat.mul_assoc ..).symm
      _ ≤ den * 2 ^ places := Nat.mul_le_mul_right _ hthird
  generalize (num <<< places) / den = argument at hargument ⊢
  have hsquare : 9 * ((argument * argument) >>> places) ≤ 2 ^ places := by
    rw [Nat.shiftRight_eq_div_pow]
    refine Nat.le_of_mul_le_mul_left ?_ (Nat.two_pow_pos places)
    calc 2 ^ places * (9 * (argument * argument / 2 ^ places))
        = 9 * (2 ^ places * (argument * argument / 2 ^ places)) := by ring
      _ ≤ 9 * (argument * argument) := Nat.mul_le_mul_left 9 (Nat.mul_div_le _ _)
      _ = (3 * argument) * (3 * argument) := by ring
      _ ≤ 2 ^ places * 2 ^ places := Nat.mul_le_mul hargument hargument
  have hseries := artanhSum_le hsquare (places + 2) argument 1
  omega

/-- The number of factors two that the logarithm takes out of a mantissa. -/
def width (mantissa : Nat) : Nat :=
  if 1 <<< (2 * Nat.log2 mantissa + 1) < mantissa * mantissa then Nat.log2 mantissa + 1
  else Nat.log2 mantissa

theorem width_bounds {mantissa : Nat} (hmantissa : 0 < mantissa) :
    2 ^ width mantissa ≤ 2 * mantissa ∧ mantissa ≤ 2 * 2 ^ width mantissa := by
  have hlower := Nat.log2_self_le hmantissa.ne'
  have hupper : mantissa < 2 ^ (mantissa.log2 + 1) := Nat.lt_log2_self
  have hnext : 2 ^ (mantissa.log2 + 1) = 2 * 2 ^ mantissa.log2 := Nat.pow_succ'
  unfold width
  split <;> omega

/-- The logarithm as it is enclosed with the given places. -/
theorem ln_eq (bits mantissa : Nat) (exponent : Int) :
    let count := exponent + width mantissa
    let num : Int := (mantissa : Int) - (1 <<< width mantissa : Nat)
    let den := mantissa + 1 <<< width mantissa
    let places := bits + 8 + (if count = 0 then Nat.log2 den - Nat.log2 num.natAbs else 0)
    let series : Int := ((2 * artanhSum places
      ((((num.natAbs <<< places) / den) * ((num.natAbs <<< places) / den)) >>> places) (places + 2)
      ((num.natAbs <<< places) / den) 1 : Nat) : Int)
    let reach := Nat.log2 count.natAbs + 2
    ln bits mantissa exponent =
      if count = 0 && num = 0 then exactly 0 0
      else ⟨(if num < 0 then -series else series) +
        (count * lnTwoPlaces (places + reach)) >>> reach, 8 * (places + 4), -places⟩ := rfl

/-- An enclosed logarithm is at most one more than the number of factors two. -/
theorem ln_bounds (bits : Nat) {mantissa : Nat} (hmantissa : 0 < mantissa) (exponent : Int) :
    ln bits mantissa exponent = exactly 0 0 ∨
      ∃ (places : Nat) (middle : Int),
        ln bits mantissa exponent = ⟨middle, 8 * (places + 4), -places⟩ ∧ bits + 8 ≤ places ∧
        middle.natAbs ≤ (1 + (exponent + width mantissa).natAbs) * 2 ^ places := by
  obtain ⟨hlower, hupper⟩ := width_bounds hmantissa
  rw [ln_eq]
  generalize hcount : exponent + (width mantissa : Int) = count
  rw [Nat.one_shiftLeft]
  generalize 2 ^ width mantissa = unit at hlower hupper ⊢
  generalize hnum : (mantissa : Int) - (unit : Nat) = num
  split
  · exact .inl rfl
  generalize (if count = 0 then Nat.log2 (mantissa + unit) - Nat.log2 num.natAbs else 0) = loss
  refine .inr ⟨bits + 8 + loss, _, rfl, Nat.le_add_right _ _, ?_⟩
  have hseries := two_mul_artanhSum_le (show 0 < mantissa + unit by omega)
    (show 3 * num.natAbs ≤ mantissa + unit by omega) (bits + 8 + loss)
  have hmultiple := natAbs_multiple_le count
    (show 0 < bits + 8 + loss + (Nat.log2 count.natAbs + 2) by omega)
  rw [Nat.add_mul, Nat.one_mul]
  refine (Int.natAbs_add_le _ _).trans (Nat.add_le_add ?_ hmultiple)
  split <;> omega

/-- The logarithm of ten is more than one. -/
theorem ln_ten (bits : Nat) :
    ∃ middle : Int, ln bits 10 0 = ⟨middle, 8 * (bits + 8 + 4), -(bits + 8 : Nat)⟩ ∧
      ((2 ^ (bits + 8) : Nat) : Int) ≤ middle := by
  have hwidth : width 10 = 3 := by decide
  rw [ln_eq, hwidth]
  refine ⟨_, rfl, ?_⟩
  simp only [Nat.one_shiftLeft]
  have htwo := (lnTwoPlaces_bounds (show 0 < bits + 8 + 3 by omega)).1
  have hmultiple : ((2 ^ (bits + 8) : Nat) : Int) ≤ (3 * lnTwoPlaces (bits + 8 + 3)) >>> (3 : Nat) := by
    rw [Int.shiftRight_eq_div_pow, Int.le_ediv_iff_mul_le (by decide)]
    rw [pow_add] at htwo
    push_cast
    have hunit : (0 : Int) < 2 ^ (bits + 8) := by positivity
    omega
  refine hmultiple.trans (Int.le_add_of_nonneg_left ?_)
  exact Int.natCast_nonneg _

/-! ## Bounds of enclosed numbers -/

/-- The enclosed numbers are at most the bound in magnitude. -/
def IsBelow (bound : Nat) (x : Enclosure) : Prop :=
  ∃ places : Nat, x.exponent = -places ∧ x.middle.natAbs + x.error ≤ bound * 2 ^ places

theorem IsBelow.mono {bound bound' : Nat} {x : Enclosure} (hx : x.IsBelow bound)
    (hle : bound ≤ bound') : x.IsBelow bound' := by
  obtain ⟨places, hexponent, hbelow⟩ := hx
  exact ⟨places, hexponent, hbelow.trans (Nat.mul_le_mul_right _ hle)⟩

/-- A quotient by a number that is more than one. -/
theorem isBelow_div? (bits : Nat) {bound places loss : Nat} {middle divisor : Int}
    {error divisorError : Nat} (hmiddle : middle.natAbs ≤ bound * 2 ^ (places + loss))
    (herror : error ≤ 2 ^ (places + loss)) (hdivisor : ((2 ^ places : Nat) : Int) ≤ divisor)
    (hdivisorError : 2 * divisorError < 2 ^ places) :
    ∃ quotient, div? bits ⟨middle, error, -(places + loss : Nat)⟩
        ⟨divisor, divisorError, -(places : Nat)⟩ = some quotient ∧
      quotient.IsBelow (2 * bound + 5) := by
  obtain ⟨n, rfl⟩ := Int.eq_ofNat_of_zero_le (show 0 ≤ divisor by omega)
  have hn : 2 ^ places ≤ n := by exact_mod_cast hdivisor
  simp only [div?, Int.natAbs_natCast]
  rw [if_neg (by omega)]
  generalize bits + 2 + Nat.log2 n - Nat.log2 middle.natAbs = shift
  refine ⟨_, rfl, loss + shift, by dsimp only; push_cast; ring, ?_⟩
  dsimp only
  have hpower : 2 ^ (places + loss) * 2 ^ shift = 2 ^ (loss + shift) * 2 ^ places := by
    rw [← Nat.pow_add, ← Nat.pow_add]
    congr 1
    omega
  have hquotient : ((middle <<< shift) / (n : Int)).natAbs ≤ bound * 2 ^ (loss + shift) := by
    refine natAbs_ediv_le (by omega) ?_
    calc (middle <<< shift).natAbs = middle.natAbs * 2 ^ shift := by
          rw [Int.shiftLeft_eq, Int.natAbs_mul, Int.natAbs_pow]
          rfl
      _ ≤ bound * 2 ^ (places + loss) * 2 ^ shift := Nat.mul_le_mul_right _ hmiddle
      _ = bound * 2 ^ (loss + shift) * 2 ^ places := by rw [Nat.mul_assoc, hpower, Nat.mul_assoc]
      _ ≤ bound * 2 ^ (loss + shift) * n := Nat.mul_le_mul_left _ hn
  generalize ((middle <<< shift) / (n : Int)).natAbs = size at hquotient ⊢
  -- Both parts of the error are multiples of the least divisor.
  have hpart : error <<< shift ≤ 2 * 2 ^ (loss + shift) * (n - divisorError) := by
    rw [Nat.shiftLeft_eq]
    calc error * 2 ^ shift ≤ 2 ^ (places + loss) * 2 ^ shift := Nat.mul_le_mul_right _ herror
      _ = 2 ^ (loss + shift) * 2 ^ places := hpower
      _ ≤ 2 ^ (loss + shift) * (2 * (n - divisorError)) := Nat.mul_le_mul_left _ (by omega)
      _ = 2 * 2 ^ (loss + shift) * (n - divisorError) := by ring
  have hrest : (size + 1) * divisorError ≤ (size + 1) * (n - divisorError) :=
    Nat.mul_le_mul_left _ (by omega)
  have herrors : (error <<< shift + (size + 1) * divisorError) / (n - divisorError) ≤
      2 * 2 ^ (loss + shift) + (size + 1) := by
    refine Nat.div_le_of_le_mul ?_
    rw [Nat.mul_comm (n - divisorError), Nat.add_mul (2 * 2 ^ (loss + shift))]
    exact Nat.add_le_add hpart hrest
  have hunit : 0 < 2 ^ (loss + shift) := Nat.two_pow_pos _
  have htotal : (2 * bound + 5) * 2 ^ (loss + shift) =
      2 * (bound * 2 ^ (loss + shift)) + 5 * 2 ^ (loss + shift) := by ring
  omega

/-! ## Exponentials -/

/-- An exponential is not negative, and neither is the middle that stands for it. -/
theorem middle_exp_nonneg (bits : Nat) (x : Enclosure) : 0 ≤ (exp bits x).middle := by
  unfold exp
  split
  · exact Int.one_nonneg
  split
  · exact Int.natCast_nonneg _
  · exact Int.natCast_nonneg _

/-! ## Where enclosures settle -/

variable {α : Type} [DecidableEq α]

/-- Wherever the enclosures settle, what is rounded is the middle of one of them, or either of its
ends. -/
theorem exists_settleFrom_of_ends {enclose : Nat → Option Enclosure} {P : Int → Int → Prop}
    (bits extra : Nat) (hends : ∀ width, bits + extra ≤ width → ∃ x, enclose width = some x ∧
      P x.middle x.exponent ∧
      (P (x.middle - x.error) x.exponent ∨ P (x.middle + x.error) x.exponent))
    (round : Int → Int → α) (fallback : α) (fuel : Nat) :
    ∃ mantissa exponent, P mantissa exponent ∧
      settleFrom enclose round fallback bits fuel extra = round mantissa exponent := by
  induction fuel generalizing extra with
  | zero =>
      obtain ⟨x, hx, hmiddle, -⟩ := hends (bits + extra) le_rfl
      refine ⟨x.middle, x.exponent, hmiddle, ?_⟩
      rw [settleFrom, hx]
  | succ fuel ih =>
      obtain ⟨x, hx, -, hend⟩ := hends (bits + extra) le_rfl
      rw [settleFrom, hx, Option.bind_some]
      split
      next result hsettled =>
        simp only [settle?] at hsettled
        split at hsettled
        next hsame =>
          have hlow := (Option.some.inj hsettled).symm
          rcases hend with hend | hend
          · exact ⟨_, _, hend, hlow⟩
          · exact ⟨_, _, hend, hlow.trans hsame⟩
        · simp at hsettled
      next => exact ih (2 * extra) fun width hwidth => hends width (by omega)

end SciCalc.Enclosure
