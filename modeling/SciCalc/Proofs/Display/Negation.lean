import SciCalc.Display.Basic
import SciCalc.Proofs.Decimal.ReadingBack
import SciCalc.Proofs.Double.Signs
import SciCalc.Proofs.Outcome

/-! # Displays of opposite numbers

All that can go wrong in rounding for the display depends on the magnitude of the number. So a
number has a display text if the number with the other sign has one.
-/

namespace SciCalc

theorem Decimal.toDouble_ofDouble_neg (count : Nat) {x : Double} (hx : x ≠ .nan) :
    (ofDouble count x.neg).toDouble = (ofDouble count x).toDouble.neg := by
  simp only [ofDouble, Double.magnitude_neg, Double.isNegative_neg hx]
  split
  · rw [neg_toDouble]
  · simp only [ofFraction]
    split <;> rw [neg_toDouble]

namespace Display

theorem nearestDecimal_neg (count : Nat) (x : Double) :
    nearestDecimal count x.neg = (nearestDecimal count x).neg := by
  simp only [nearestDecimal, Double.isFinite_neg]
  split
  next hfinite => exact Decimal.toDouble_ofDouble_neg _ (Double.ne_nan_of_isFinite hfinite)
  · rfl

@[simp] theorem magnitude_neg (x : Double) : magnitude x.neg = magnitude x := by
  simp only [magnitude, Double.abs_neg]

theorem isOk_nearestInteger_neg (x : Double) :
    (nearestInteger x.neg).isOk = (nearestInteger x).isOk := by
  simp only [nearestInteger, Double.isNan_neg, Double.isInfinite_neg]
  split
  · rfl
  split <;> rfl

/-- A call that only changes its value succeeds as before. -/
theorem isOk_bind_pure {ε α β : Type} (call : Except ε α) (change : α → β) :
    (call >>= fun value => pure (change value)).isOk = call.isOk := by
  cases call <;> rfl

theorem isOk_map {ε α β : Type} (call : Except ε α) (change : α → β) :
    (change <$> call).isOk = call.isOk := by
  cases call <;> rfl

theorem isOk_roundAt_neg (exponent : Int) (x : Double) (digits : Nat) :
    (roundAt exponent x.neg digits).isOk = (roundAt exponent x digits).isOk := by
  simp only [roundAt, nearestDecimal_neg]
  split
  · cases powerOfTen ((digits : Int) - exponent - 1).toNat with
    | error fault => rfl
    | ok power =>
        simp only [bind_ok, isOk_bind_pure, Double.neg_mul, isOk_nearestInteger_neg]
  · cases powerOfTen (-((digits : Int) - exponent - 1)).toNat with
    | error fault => rfl
    | ok power =>
        simp only [bind_ok, isOk_bind_pure, Double.neg_div, isOk_nearestInteger_neg]

theorem isOk_roundDouble_neg (x : Double) (digits : Nat) :
    (roundDouble x.neg digits).isOk = (roundDouble x digits).isOk := by
  rw [roundDouble, roundDouble, magnitude_neg]
  cases magnitude x with
  | error fault => rfl
  | ok exponent => exact isOk_roundAt_neg exponent x digits

theorem isOk_roundToPrecision_neg (x : Double) (digits : Int) :
    (roundToPrecision (.float x.neg) digits).isOk = (roundToPrecision (.float x) digits).isOk := by
  simp only [roundToPrecision, Number.toDouble?, Double.isZero_neg]
  split
  · rfl
  split
  · rfl
  · exact isOk_roundDouble_neg x digits.toNat

theorem isOk_formatDouble_neg (x : Double) :
    (formatDouble x.neg).isOk = (formatDouble x).isOk := by
  simp only [formatDouble, format, Number.toDouble?, Double.isNan_neg, Double.isInfinite_neg,
    Double.isZero_neg, Double.abs_neg]
  split
  · rfl
  split
  · rfl
  split
  · rfl
  split
  · rfl
  · simp only [isOk_map, isOk_roundToPrecision_neg]

/-- The number with the other sign has a display text, too. -/
theorem exists_formatDouble_neg {x : Double} {text : String} (htext : formatDouble x = .ok text) :
    ∃ other, formatDouble x.neg = .ok other := by
  have hok := isOk_formatDouble_neg x
  rw [htext] at hok
  cases hother : formatDouble x.neg with
  | ok other => exact ⟨other, rfl⟩
  | error fault => simp [hother, Except.isOk, Except.toBool] at hok

end Display

end SciCalc
