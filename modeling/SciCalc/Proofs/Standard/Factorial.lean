import Mathlib.Tactic.NormNum.NatFactorial
import SciCalc.Proofs.Double.Overflow
import SciCalc.Proofs.Double.WholeNumbers
import SciCalc.Standard.Arithmetic

/-! # Factorials

The factorial of a double is a product of rounded factors, each product rounded, and the loop that
computes it stops at the first infinite product. Factors of at least one never make a product
smaller, rounding included, and an infinity stays what it is; so nothing is lost by stopping, and
the products grow with the number. They grow so fast that the range ends at the last factor of 171
at the latest.
-/

namespace SciCalc

namespace Double

/-- Whether a double is positive infinity, or a finite number that is not below a bound. -/
def IsAtLeast (bound : ℚ) (x : Double) : Prop := x = .inf false ∨ bound ≤ x.toRat

variable {bound bound' : ℚ} {x y : Double}

/-- With a positive bound, what is not infinite is finite. -/
theorem IsAtLeast.cases (hx : x.IsAtLeast bound) (hbound : 0 < bound) :
    x = .inf false ∨ x.isFinite = true ∧ bound ≤ x.toRat :=
  hx.imp_right fun hle => ⟨isFinite_of_toRat_ne_zero (hbound.trans_le hle).ne', hle⟩

theorem IsAtLeast.mono (hx : x.IsAtLeast bound) (hle : bound' ≤ bound) : x.IsAtLeast bound' :=
  hx.imp_right hle.trans

theorem IsAtLeast.ne_nan (hx : x.IsAtLeast bound) (hbound : 0 < bound) : x ≠ .nan := by
  rcases hx.cases hbound with rfl | ⟨hfinite, -⟩
  · exact nofun
  · exact ne_nan_of_isFinite hfinite

theorem IsAtLeast.isInfinite_iff (hx : x.IsAtLeast bound) (hbound : 0 < bound) :
    x.isInfinite = true ↔ x = .inf false := by
  refine ⟨fun hinfinite => ?_, fun heq => by rw [heq]; rfl⟩
  rcases hx.cases hbound with heq | ⟨hfinite, -⟩
  · exact heq
  · rw [isInfinite_eq_not_isFinite (ne_nan_of_isFinite hfinite), hfinite] at hinfinite
    exact absurd hinfinite Bool.false_ne_true

theorem isAtMost_inf (hx : x ≠ .nan) : x.isAtMost (.inf false) = true := by
  cases x with
  | nan => exact absurd rfl hx
  | inf negative => cases negative <;> rfl
  | finite negative mantissa exponent canonical => rfl

/-- A positive number is rounded to a finite double or to positive infinity. -/
theorem ofRat_of_pos (negativeZero : Bool) {q : ℚ} (hq : 0 < q) :
    ofRat negativeZero q = .inf false ∨ (ofRat negativeZero q).isFinite = true := by
  have hnum := Rat.num_pos.mpr hq
  rw [ofRat, if_neg hnum.ne', decide_eq_false hnum.not_gt]
  cases hround : ofFraction false q.num.natAbs q.den with
  | nan => exact absurd hround (ofFraction_ne_nan _ _ _)
  | inf negative =>
      have hsign := isNegative_ofFraction false q.num.natAbs q.den
      rw [hround] at hsign
      exact .inl (congrArg inf hsign)
  | finite negative mantissa exponent canonical => exact .inr rfl

/-- Rounding does not take a number below a double that it is not below. -/
theorem isAtLeast_ofRat (negativeZero : Bool) {q : ℚ} (hpos : 0 < q) (hy : y.isFinite = true)
    (hle : y.toRat ≤ q) : (ofRat negativeZero q).IsAtLeast y.toRat :=
  (ofRat_of_pos negativeZero hpos).imp_right fun hfinite =>
    (isNearest_ofRat hfinite).le_toRat hy hle

theorem toRat_ofNat {n : ℕ} (hn : n ≤ mantissaBound) : (ofNat n).toRat = n :=
  (toInt?_eq_some_iff.mp (toInt?_ofNat hn)).2

/-- A natural number other than zero is at least one as a double, however large it is. -/
theorem isAtLeast_ofNat {n : ℕ} (hn : 0 < n) : (ofNat n).IsAtLeast 1 := by
  have hone : (ofNat 1).toRat = 1 := by rw [toRat_ofNat (by decide), Nat.cast_one]
  have hround : ofNat n = ofRat false n := by
    have hnum : ((n : ℚ).num) = n := Rat.num_natCast n
    rw [ofRat, hnum, if_neg (by omega), decide_eq_false (by omega), Int.natAbs_natCast,
      Rat.den_natCast, ofNat]
  rw [hround, ← hone]
  refine isAtLeast_ofRat false (by exact_mod_cast hn) rfl ?_
  rw [hone]
  exact_mod_cast hn

/-! ## Products -/

/-- An infinity stays what it is under a factor of at least one. -/
theorem inf_mul (hy : y.IsAtLeast 1) : (inf false).mul y = .inf false := by
  rcases hy.cases one_pos with rfl | ⟨-, hle⟩
  · rfl
  · obtain ⟨mantissa, exponent, canonical, hmantissa, rfl⟩ :=
      exists_finite_of_toRat_pos (one_pos.trans_le hle)
    cases mantissa with
    | zero => exact absurd hmantissa (Nat.lt_irrefl 0)
    | succ mantissa => rfl

theorem mul_inf (hx : x.IsAtLeast 1) : x.mul (.inf false) = .inf false := by
  rcases hx.cases one_pos with rfl | ⟨-, hle⟩
  · rfl
  · obtain ⟨mantissa, exponent, canonical, hmantissa, rfl⟩ :=
      exists_finite_of_toRat_pos (one_pos.trans_le hle)
    cases mantissa with
    | zero => exact absurd hmantissa (Nat.lt_irrefl 0)
    | succ mantissa => rfl

/-- A factor of at least one does not make a product smaller. -/
theorem IsAtLeast.mul (hx : x.IsAtLeast bound) (hbound : 1 ≤ bound) (hy : y.IsAtLeast 1) :
    (x.mul y).IsAtLeast bound := by
  rcases hx.cases (one_pos.trans_le hbound) with rfl | ⟨hxFinite, hxLower⟩
  · exact .inl (inf_mul hy)
  rcases hy.cases one_pos with rfl | ⟨hyFinite, hyLower⟩
  · exact .inl (mul_inf (.inr (hbound.trans hxLower)))
  obtain ⟨negativeZero, hproduct⟩ := exists_mul_eq_ofRat hxFinite hyFinite
  have hxPos : 0 < x.toRat := by linarith
  have hgrows : x.toRat ≤ x.toRat * y.toRat := le_mul_of_one_le_right hxPos.le hyLower
  rw [hproduct]
  exact (isAtLeast_ofRat negativeZero (hxPos.trans_le hgrows) hxFinite hgrows).mono hxLower

/-- A product is off by the relative error of one rounding. -/
theorem IsAtLeast.mul_error (hx : x.IsAtLeast bound) (hbound : 1 ≤ bound)
    (hy : y.IsAtLeast bound') (hbound' : 1 ≤ bound') :
    (x.mul y).IsAtLeast (bound * bound' * (1 - (2 : ℚ) ^ (-53 : Int))) := by
  rcases hx.cases (one_pos.trans_le hbound) with rfl | ⟨hxFinite, hxLower⟩
  · exact .inl (inf_mul (hy.mono hbound'))
  rcases hy.cases (one_pos.trans_le hbound') with rfl | ⟨hyFinite, hyLower⟩
  · exact .inl (mul_inf (.inr (hbound.trans hxLower)))
  obtain ⟨negativeZero, hproduct⟩ := exists_mul_eq_ofRat hxFinite hyFinite
  have hexact : bound * bound' ≤ x.toRat * y.toRat :=
    mul_le_mul hxLower hyLower (by linarith) (by linarith)
  have hone : 1 ≤ x.toRat * y.toRat := (one_le_mul_of_one_le_of_one_le hbound hbound').trans hexact
  rw [hproduct]
  refine (ofRat_of_pos negativeZero (one_pos.trans_le hone)).imp_right fun hfinite => ?_
  have hnormal : (2 : ℚ) ^ (-1022 : Int) ≤ |x.toRat * y.toRat| :=
    (zpow_le_one_of_nonpos₀ (by norm_num) (by decide)).trans (hone.trans (le_abs_self _))
  have herror := (isNearest_ofRat hfinite).abs_sub_le hnormal
  rw [abs_of_pos (one_pos.trans_le hone)] at herror
  calc bound * bound' * (1 - (2 : ℚ) ^ (-53 : Int))
      ≤ x.toRat * y.toRat * (1 - (2 : ℚ) ^ (-53 : Int)) :=
        mul_le_mul_of_nonneg_right hexact (by norm_num)
    _ ≤ (ofRat negativeZero (x.toRat * y.toRat)).toRat := by
        linarith [(abs_le.mp herror).1]

end Double

namespace Standard

open Double

/-! ## The product without an early exit -/

/-- The product `2 * 3 * … * n`, from the left to the right. -/
def fullProduct (n : ℕ) : Double := (List.range' 2 (n - 1)).foldl timesNat (ofNat 1)

variable {bound : ℚ} {product : Double}

theorem isAtLeast_foldl (hproduct : product.IsAtLeast bound) (hbound : 1 ≤ bound)
    {factors : List ℕ} (hpos : ∀ factor ∈ factors, 0 < factor) :
    (factors.foldl timesNat product).IsAtLeast bound := by
  induction factors generalizing product with
  | nil => exact hproduct
  | cons factor rest ih =>
      obtain ⟨hfactor, hrest⟩ := List.forall_mem_cons.mp hpos
      exact ih (hproduct.mul hbound (isAtLeast_ofNat hfactor)) hrest

theorem foldl_inf {factors : List ℕ} (hpos : ∀ factor ∈ factors, 0 < factor) :
    factors.foldl timesNat (.inf false) = .inf false := by
  induction factors with
  | nil => rfl
  | cons factor rest ih =>
      obtain ⟨hfactor, hrest⟩ := List.forall_mem_cons.mp hpos
      rw [List.foldl_cons, timesNat, inf_mul (isAtLeast_ofNat hfactor), ih hrest]

theorem pos_of_mem_range' {next count factor : ℕ} (hnext : 0 < next)
    (hmem : factor ∈ List.range' next count) : 0 < factor :=
  hnext.trans_le (List.left_le_of_mem_range' hmem)

theorem isAtLeast_fullProduct (n : ℕ) : (fullProduct n).IsAtLeast 1 :=
  isAtLeast_foldl (isAtLeast_ofNat Nat.one_pos) le_rfl fun _ => pos_of_mem_range' Nat.two_pos

/-- The product of more factors continues the product of fewer. -/
theorem fullProduct_of_le {m n : ℕ} (hle : m ≤ n) :
    ∃ factors : List ℕ, (∀ factor ∈ factors, 0 < factor) ∧
      fullProduct n = factors.foldl timesNat (fullProduct m) := by
  obtain ⟨more, hmore⟩ := Nat.exists_eq_add_of_le (Nat.sub_le_sub_right hle 1)
  refine ⟨List.range' (2 + (m - 1)) more, fun _ => pos_of_mem_range' (by omega), ?_⟩
  rw [fullProduct, fullProduct, ← List.foldl_append, hmore, ← List.range'_append_1]

theorem isAtMost_fullProduct {m n : ℕ} (hle : m ≤ n) :
    (fullProduct m).isAtMost (fullProduct n) = true := by
  obtain ⟨factors, hpos, hcontinued⟩ := fullProduct_of_le hle
  have hnumber := (isAtLeast_fullProduct m).ne_nan one_pos
  rcases (isAtLeast_fullProduct m).cases one_pos with hinf | ⟨hfinite, hone⟩
  · rw [hcontinued, hinf, foldl_inf hpos]
    rfl
  · -- The smaller product is itself a bound that no further factor goes below.
    have hlower : (fullProduct n).IsAtLeast (fullProduct m).toRat :=
      hcontinued ▸ isAtLeast_foldl (.inr le_rfl) hone hpos
    rcases hlower.cases (one_pos.trans_le hone) with hinf | ⟨hfinite', hle'⟩
    · rw [hinf]
      exact isAtMost_inf hnumber
    · exact (isAtMost_iff hfinite hfinite').mpr hle'

/-! ## The products that the loop computes -/

/-- The products of the loop are the first of those without an early exit. -/
theorem productsFrom_isPrefix (count next : ℕ) (product : Double) :
    productsFrom count next product <+:
      ((List.range' next count).scanl timesNat product).tail := by
  induction count generalizing next product with
  | zero => exact List.nil_prefix
  | succ count ih =>
      rw [List.range'_succ, List.scanl_cons, List.tail_cons, productsFrom]
      have hscan : (List.range' (next + 1) count).scanl timesNat (timesNat product next) =
          timesNat product next ::
            ((List.range' (next + 1) count).scanl timesNat (timesNat product next)).tail := by
        cases List.range' (next + 1) count <;> simp
      rw [hscan]
      split
      · exact List.prefix_append [_] _
      · exact List.cons_prefix_cons.mpr ⟨rfl, ih _ _⟩

/-- Nothing is lost by stopping. -/
theorem productFrom_eq_foldl (count : ℕ) {next : ℕ} (hnext : 0 < next)
    (hproduct : product.IsAtLeast 1) :
    productFrom count next product = (List.range' next count).foldl timesNat product := by
  induction count generalizing next product with
  | zero => rfl
  | succ count ih =>
      have hextended : (timesNat product next).IsAtLeast 1 :=
        hproduct.mul le_rfl (isAtLeast_ofNat hnext)
      rw [List.range'_succ, List.foldl_cons, productFrom_succ]
      split
      next hinfinite =>
        rw [(hextended.isInfinite_iff one_pos).mp hinfinite,
          foldl_inf fun _ => pos_of_mem_range' (Nat.succ_pos next)]
      · exact ih (Nat.succ_pos next) hextended

/-! ## The end of the range -/

/-- A bound of the product that `count` multiplications lead to. -/
def leastProduct (count : ℕ) : ℚ :=
  (count + 1).factorial * (1 - (2 : ℚ) ^ (-53 : Int)) ^ count

theorem leastProduct_succ (count : ℕ) :
    leastProduct (count + 1) =
      leastProduct count * (count + 2 : ℕ) * (1 - (2 : ℚ) ^ (-53 : Int)) := by
  rw [leastProduct, leastProduct, Nat.factorial_succ (count + 1), pow_succ]
  push_cast
  ring

theorem one_le_leastProduct (count : ℕ) : 1 ≤ leastProduct count := by
  induction count with
  | zero => simp [leastProduct]
  | succ count ih =>
      have htwo : (2 : ℚ) ≤ (count + 2 : ℕ) := by exact_mod_cast Nat.le_add_left 2 count
      rw [leastProduct_succ]
      calc (1 : ℚ) ≤ 1 * 2 * (1 - (2 : ℚ) ^ (-53 : Int)) := by norm_num
        _ ≤ leastProduct count * (count + 2 : ℕ) * (1 - (2 : ℚ) ^ (-53 : Int)) := by
            gcongr

/-- The product of all numbers up to 171 lies beyond the range, even if every rounding made it
smaller. -/
theorem greatest_lt_leastProduct :
    9007199254740991 * (2 : ℚ) ^ greatestExponent < leastProduct 170 := by
  have hrounded := one_add_mul_le_pow (a := -(2 : ℚ) ^ (-53 : Int)) (by norm_num) 170
  have hfactorial : 2 ^ 1025 ≤ (170 + 1).factorial := by
    rw [show 1025 = 205 * 5 from rfl, pow_mul]
    norm_num
  have hfactorial' : (2 : ℚ) ^ 1025 ≤ ((170 + 1).factorial : ℚ) := by exact_mod_cast hfactorial
  rw [← sub_eq_add_neg] at hrounded
  calc 9007199254740991 * (2 : ℚ) ^ greatestExponent < (2 : ℚ) ^ (1024 : ℤ) :=
        greatest_lt_overflowThreshold.trans overflowThreshold_lt_zpow
    _ = (2 : ℚ) ^ 1025 * (1 / 2) := by
        rw [pow_succ, mul_assoc, mul_one_div_cancel two_ne_zero, mul_one]
        exact zpow_natCast 2 1024
    _ ≤ (170 + 1).factorial * (1 - (2 : ℚ) ^ (-53 : Int)) ^ 170 := by
        refine mul_le_mul hfactorial' (le_trans ?_ hrounded) (by norm_num) (Nat.cast_nonneg _)
        norm_num
    _ = leastProduct 170 := rfl

theorem lt_of_isFinite {done : ℕ} (hdone : done ≤ 170)
    (hlower : product.IsAtLeast (leastProduct done)) (hfinite : product.isFinite = true) :
    done < 170 := by
  refine hdone.lt_of_ne ?_
  rintro rfl
  rcases hlower with rfl | hle
  · exact Bool.false_ne_true hfinite
  · have hgreatest := (le_abs_self _).trans (abs_toRat_le hfinite)
    exact absurd (hle.trans hgreatest) greatest_lt_leastProduct.not_ge

/-- A loop with a finite product behind it makes as many multiplications as are left up to 170, or
fewer. -/
theorem length_productsFrom_le (count : ℕ) {done : ℕ} (hdone : done < 170)
    (hlower : product.IsAtLeast (leastProduct done)) :
    done + (productsFrom count (done + 2) product).length ≤ 170 := by
  induction count generalizing done product with
  | zero => exact hdone.le
  | succ count ih =>
      have hfactor : (ofNat (done + 2)).IsAtLeast (done + 2 : ℕ) :=
        .inr (toRat_ofNat (show done + 2 ≤ 9007199254740992 by omega)).ge
      have htwo : (1 : ℚ) ≤ (done + 2 : ℕ) := by exact_mod_cast Nat.le_add_left 1 (done + 1)
      have hextended : (timesNat product (done + 2)).IsAtLeast (leastProduct (done + 1)) :=
        leastProduct_succ done ▸ hlower.mul_error (one_le_leastProduct done) hfactor htwo
      rw [productsFrom]
      split
      · exact hdone
      next hrange =>
        have hfinite : (timesNat product (done + 2)).isFinite = true := by
          have hnumber := hextended.ne_nan (one_pos.trans_le (one_le_leastProduct _))
          simpa [isInfinite_eq_not_isFinite hnumber] using hrange
        have hless := lt_of_isFinite hdone hextended hfinite
        rw [List.length_cons]
        have hrest : done + 1 + (productsFrom count (done + 2 + 1) _).length ≤ 170 :=
          ih hless hextended
        omega

/-! ## The factorial -/

section Factorial

variable {x : Double} {n : ℕ} (hfinite : x.isFinite = true) (hvalue : x.toRat = n)

include hfinite hvalue

theorem factorial_eq_productFrom : factorial x = .ok (productFrom (n - 1) 2 (ofNat 1)) := by
  have hint : x.toInt? = some (n : ℤ) := toInt?_eq_some_iff.mpr ⟨hfinite, by exact_mod_cast hvalue⟩
  simp only [factorial, hint]
  rw [if_neg (by omega), Int.toNat_natCast]

theorem factorial_eq_fullProduct : factorial x = .ok (fullProduct n) := by
  rw [factorial_eq_productFrom hfinite hvalue,
    productFrom_eq_foldl _ Nat.two_pos (isAtLeast_ofNat Nat.one_pos), fullProduct]

theorem factorial_isAtMost {y : Double} {m : ℕ} (hfinite' : y.isFinite = true)
    (hvalue' : y.toRat = m) (hle : x.isAtMost y = true) :
    ∃ product product', factorial x = .ok product ∧ factorial y = .ok product' ∧
      product.isAtMost product' = true := by
  rw [isAtMost_iff hfinite hfinite', hvalue, hvalue', Nat.cast_le] at hle
  exact ⟨_, _, factorial_eq_fullProduct hfinite hvalue, factorial_eq_fullProduct hfinite' hvalue',
    isAtMost_fullProduct hle⟩

/-- The factorial is the product of all factors without an early exit, each of them rounded and each
product rounded. It is a number, and does not become smaller as its argument grows. The loop goes
through the first of these products, and makes no more than 170 multiplications. -/
theorem factorial_is_full_product :
    factorial x = .ok (fullProduct n) ∧ fullProduct n ≠ .nan ∧
      (∀ (y : Double) (m : ℕ), y.isFinite = true → y.toRat = m → x.isAtMost y = true →
        ∃ product product', factorial x = .ok product ∧ factorial y = .ok product' ∧
          product.isAtMost product' = true) ∧
      factorial x = .ok ((productsFrom (n - 1) 2 (ofNat 1)).getLastD (ofNat 1)) ∧
      productsFrom (n - 1) 2 (ofNat 1) <+:
        ((List.range' 2 (n - 1)).scanl timesNat (ofNat 1)).tail ∧
      (productsFrom (n - 1) 2 (ofNat 1)).length ≤ 170 := by
  have hone : (ofNat 1).IsAtLeast (leastProduct 0) := by
    refine (isAtLeast_ofNat Nat.one_pos).mono ?_
    simp [leastProduct]
  have hlength := length_productsFrom_le (n - 1) (show 0 < 170 by decide) hone
  rw [Nat.zero_add, Nat.zero_add] at hlength
  refine ⟨factorial_eq_fullProduct hfinite hvalue, (isAtLeast_fullProduct n).ne_nan one_pos,
    fun y m hfinite' hvalue' hle => factorial_isAtMost hfinite hvalue hfinite' hvalue' hle, ?_,
    productsFrom_isPrefix _ _ _, hlength⟩
  rw [factorial_eq_productFrom hfinite hvalue, productFrom]

end Factorial

/-- The factors of this number up to itself would never be gone through. -/
theorem factorial_is_full_product_of_power :
    ∃ x : Double, x.isFinite = true ∧ x.toRat = (2 ^ 1000 : ℕ) ∧
      factorial x = .ok (fullProduct (2 ^ 1000)) ∧ fullProduct (2 ^ 1000) ≠ .nan ∧
      (productsFrom (2 ^ 1000 - 1) 2 (ofNat 1)).length ≤ 170 := by
  have hvalue : (finite false leastNormalMantissa 948 (by decide)).toRat = (2 ^ 1000 : ℕ) := by
    have hmantissa : (leastNormalMantissa : ℚ) = (2 : ℚ) ^ (52 : ℤ) := by norm_num
    rw [toRat_finite, if_neg Bool.false_ne_true, hmantissa, ← zpow_add₀ two_ne_zero, Nat.cast_pow,
      Nat.cast_ofNat]
    exact zpow_natCast 2 1000
  obtain ⟨hproduct, hnumber, -, -, -, hlength⟩ := factorial_is_full_product rfl hvalue
  exact ⟨_, rfl, hvalue, hproduct, hnumber, hlength⟩

end Standard

end SciCalc
