import SciCalc.Proofs.Double.Overflow
import SciCalc.Session.State

/-! # Values that are finite real numbers

The memory and the last result take integers and doubles, and nothing else: a truth value is no
number here. An integer stands for the nearest double, and from the end of the range on there is
none; what is infinite or not a number is refused as well.
-/

namespace SciCalc

namespace Datum

/-- The double that a value stands for; what is no real number stands for none. -/
def toDouble : Datum → Double
  | number (.int n) => .ofInt n
  | number (.float x) => x
  | _ => .nan

/-- The value is a real number within the range of the doubles. -/
def IsFiniteReal : Datum → Prop
  | number (.int n) => (n.natAbs : ℚ) < Double.overflowThreshold
  | number (.float x) => x.isFinite = true
  | _ => False

theorem isFinite_toDouble_iff (value : Datum) :
    value.toDouble.isFinite = true ↔ value.IsFiniteReal := by
  match value with
  | number (.int n) => exact Double.isFinite_ofInt_iff n
  | number (.float x) => exact Iff.rfl
  | nothing | truth _ | text _ | emptyList => exact iff_of_false Bool.false_ne_true id

end Datum

namespace State

variable {value : Datum}

theorem resultOf?_of_isFiniteReal (hreal : value.IsFiniteReal) :
    resultOf? value = some value.toDouble := by
  have hfinite := value.isFinite_toDouble_iff.mpr hreal
  match value with
  | .number (.int n) =>
      have hconverted : (Double.ofInt n).isFinite = true := hfinite
      simp only [resultOf?, Number.toFinite?, Number.toDouble?, hconverted, if_true]
      exact Option.filter_some_pos hconverted
  | .number (.float x) => exact Option.filter_some_pos hfinite
  | .nothing | .truth _ | .text _ | .emptyList => exact absurd hreal id

theorem resultOf?_of_not_isFiniteReal (hreal : ¬value.IsFiniteReal) : resultOf? value = none := by
  have hfinite := mt value.isFinite_toDouble_iff.mp hreal
  match value with
  | .number (.int n) =>
      have hconverted : ¬(Double.ofInt n).isFinite = true := hfinite
      simp only [resultOf?, Number.toFinite?, Number.toDouble?, if_neg hconverted]
      rfl
  | .number (.float x) => exact Option.filter_some_neg ((Bool.not_eq_true _).mp hfinite)
  | .nothing | .truth _ | .text _ | .emptyList => rfl

end State

end SciCalc
