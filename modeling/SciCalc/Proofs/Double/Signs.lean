import SciCalc.Double.Arithmetic
import SciCalc.Proofs.Double.Rounding

/-! # Changing the sign

The double with the other sign is of the same sort and has the same magnitude, and rounding does
not look at the sign: products and quotients change theirs with the sign of an operand.
-/

namespace SciCalc.Double

@[simp] theorem neg_nan : neg nan = nan := rfl

@[simp] theorem neg_inf (negative : Bool) : (inf negative).neg = inf (!negative) := rfl

@[simp] theorem neg_finite (negative : Bool) (mantissa : Nat) (exponent : Int)
    (canonical : IsCanonical mantissa exponent) :
    (finite negative mantissa exponent canonical).neg =
      finite (!negative) mantissa exponent canonical := rfl

@[simp] protected theorem neg_neg (x : Double) : x.neg.neg = x := by
  cases x <;> simp

protected theorem neg_inj {x y : Double} : x.neg = y.neg ↔ x = y :=
  ⟨fun heq => by rw [← Double.neg_neg x, heq, Double.neg_neg], congrArg Double.neg⟩

@[simp] theorem isNan_neg (x : Double) : x.neg.isNan = x.isNan := by
  cases x <;> rfl

@[simp] theorem isInfinite_neg (x : Double) : x.neg.isInfinite = x.isInfinite := by
  cases x <;> rfl

@[simp] theorem isZero_neg (x : Double) : x.neg.isZero = x.isZero := by
  cases x with
  | nan | inf negative => rfl
  | finite negative mantissa exponent canonical => cases mantissa <;> rfl

@[simp] protected theorem abs_neg (x : Double) : x.neg.abs = x.abs := by
  cases x <;> rfl

@[simp] theorem magnitude_neg (x : Double) : x.neg.magnitude = x.magnitude := by
  cases x <;> rfl

theorem neg_ne_nan {x : Double} (hx : x ≠ .nan) : x.neg ≠ .nan := by
  cases x with
  | nan => exact absurd rfl hx
  | inf | finite => exact nofun

theorem isNegative_neg {x : Double} (hx : x ≠ .nan) : x.neg.isNegative = !x.isNegative := by
  cases x with
  | nan => exact absurd rfl hx
  | inf negative | finite negative mantissa exponent canonical => rfl

theorem toRat_neg (x : Double) : x.neg.toRat = -x.toRat := by
  cases x with
  | nan | inf negative => rfl
  | finite negative mantissa exponent canonical =>
      cases negative <;> simp [toRat, Rat.neg_mkRat]

/-- Rounding gives the other sign to a number of the other sign. -/
theorem neg_ofRat (negativeZero : Bool) (q : Rat) :
    (ofRat negativeZero q).neg = ofRat (!negativeZero) (-q) := by
  simp only [ofRat, Rat.neg_num, Rat.neg_den, Int.neg_eq_zero, Int.natAbs_neg]
  split
  · rfl
  next hnum =>
    rw [neg_ofFraction, ← decide_not]
    congr 1
    exact decide_eq_decide.mpr (by omega)

protected theorem neg_mul (x y : Double) : x.neg.mul y = (x.mul y).neg := by
  match x, y with
  | nan, _ | inf _, nan | finite _ _ _ _, nan => rfl
  | inf negative, inf other => simp [mul, isNegative, isZero]
  | inf negative, finite other mantissa exponent canonical =>
      simp only [mul, neg_inf, isNegative]
      split <;> simp
  | finite negative mantissa exponent canonical, inf other =>
      have hzero := isZero_neg (finite negative mantissa exponent canonical)
      rw [neg_finite] at hzero
      simp only [mul, neg_finite, isNegative, hzero]
      split <;> simp
  | finite negative mantissa exponent canonical, finite other mantissa' exponent' canonical' =>
      have hvalue := toRat_neg (finite negative mantissa exponent canonical)
      rw [neg_finite] at hvalue
      simp only [mul, neg_finite, isNegative, hvalue, Rat.neg_mul, neg_ofRat, Bool.not_bne]

protected theorem neg_div (x y : Double) : x.neg.div y = (x.div y).neg := by
  match x, y with
  | nan, _ | inf _, nan | finite _ _ _ _, nan | inf _, inf _ => rfl
  | inf negative, finite other mantissa exponent canonical => simp [div, isNegative]
  | finite negative mantissa exponent canonical, inf other => simp [div, isNegative, zero]
  | finite negative mantissa exponent canonical, finite other mantissa' exponent' canonical' =>
      have hvalue := toRat_neg (finite negative mantissa exponent canonical)
      have hzero := isZero_neg (finite negative mantissa exponent canonical)
      rw [neg_finite] at hvalue hzero
      simp only [div, neg_finite, isNegative, hvalue, hzero]
      split
      · split <;> simp
      · simp only [neg_ofRat, Rat.div_def, Rat.neg_mul, Bool.not_bne]

end SciCalc.Double
