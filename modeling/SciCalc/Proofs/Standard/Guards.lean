import SciCalc.Proofs.Double.Nearest
import SciCalc.Proofs.Double.WholeNumbers
import SciCalc.Proofs.Outcome
import SciCalc.Standard.Arithmetic

/-! # Operations that break off

The functions of doubles answer every argument. The operations that a machine offers in their place
break off at some: a division at a zero divisor, a sine at an infinity, a logarithm at a zero or a
negative number, a conversion to a double at an integer that is too large. Here the operations of a
formula are written over operations that break off, each with the test that is made before the call
or the exception that is answered behind it. They never break off, and they are the operations of
the standard arithmetic: no test lets an argument through at which the call behind it breaks off.
-/

namespace SciCalc

/-- Why an operation breaks off. -/
inductive Interruption where
  /-- The divisor is zero. -/
  | zeroDivisor
  /-- The result, or the number to be converted, lies beyond the range. -/
  | overflow
  /-- The operation has no value at its arguments. -/
  | domain
  deriving DecidableEq

/-! ## The operations of the machine -/

namespace Interruptible

def ofException : Double.Exception → Interruption
  | .overflow => .overflow
  | .invalid => .domain

def quotient (left right : Double) : Except Interruption Double :=
  if right.isZero then .error .zeroDivisor else .ok (left.div right)

def power (base exponent : Double) : Except Interruption Double :=
  (base.pow exponent).mapError ofException

def exp (x : Double) : Except Interruption Double := x.exp.mapError ofException

/-- A function of an angle; infinities are no angles. -/
def ofAngle (function : Double → Double) (radians : Double) : Except Interruption Double :=
  if radians.isInfinite then .error .domain else .ok (function radians)

/-- A logarithm; zeros and what has a negative sign have none. -/
def logarithm (function : Double → Double) (x : Double) : Except Interruption Double :=
  if x.isZero || x.isNegative then .error .domain else .ok (function x)

/-- The square root; of what has a negative sign, only zero has one. -/
def squareRoot (x : Double) : Except Interruption Double :=
  if x.isNegative && !x.isZero then .error .domain else .ok x.sqrt

/-- An integer computed from a double, which must be finite. -/
def integer (function : Double → Int) (x : Double) : Except Interruption Int :=
  if x.isNan then .error .domain
  else if x.isInfinite then .error .overflow
  else .ok (function x)

/-- A double without its fraction. -/
def truncate (x : Double) : Int := x.toRat.num.tdiv x.toRat.den

def ofNat (n : Nat) : Except Interruption Double :=
  if (Double.ofNat n).isInfinite then .error .overflow else .ok (Double.ofNat n)

/-- The quotient of an integer by a positive one, rounded once. -/
def ratio (num : Int) (den : Nat) : Except Interruption Double :=
  let rounded := Double.ofFraction (num < 0) num.natAbs den
  if den = 0 then .error .zeroDivisor
  else if rounded.isInfinite then .error .overflow
  else .ok rounded

end Interruptible

/-! ## The operations of a formula -/

namespace Guarded

def divide (left right : Double) : Except Interruption (Except CalcError Double) :=
  if right.isZero then .ok (.error .divisionByZero)
  else .ok <$> Interruptible.quotient left right

/-- The power; what it breaks off with is answered, except for a zero divisor. -/
def power (base exponent : Double) : Except Interruption Double :=
  match Interruptible.power base exponent with
  | .ok result => .ok result
  | .error .overflow => .ok (Standard.signedInfinity base exponent)
  | .error .domain => .ok (if base.isZero then Standard.signedInfinity base exponent else .nan)
  | .error .zeroDivisor => .error .zeroDivisor

/-- The exponential; only an overflow is answered. -/
def exp (x : Double) : Except Interruption Double :=
  match Interruptible.exp x with
  | .ok result => .ok result
  | .error .overflow => .ok (.inf false)
  | .error interruption => .error interruption

/-- A function of an angle in radians, which is not called unless the angle is finite. -/
def ofAngle (function : Double → Double) (radians : Double) : Except Interruption Double :=
  if radians.isFinite then Interruptible.ofAngle function radians else .ok .nan

/-- A logarithm, which is not called where the argument is at most zero. -/
def logarithm (name : UnaryFunction) (function : Double → Double) (x : Double) :
    Except Interruption (Except CalcError Double) :=
  if x.isAtMost (Double.zero false) then .ok (.error (.logarithmDomain name))
  else .ok <$> Interruptible.logarithm function x

def sqrt (x : Double) : Except Interruption (Except CalcError Double) :=
  if x.isLess (Double.zero false) then .ok (.error .squareRootDomain)
  else .ok <$> Interruptible.squareRoot x

/-- Multiplies by `count` successive natural numbers from `next` on, each converted to a double,
until the product is infinite. -/
def productFrom : (count : Nat) → (next : Nat) → (product : Double) → Except Interruption Double
  | 0, _, product => .ok product
  | count + 1, next, product => do
    let factor ← Interruptible.ofNat next
    let extended := product.mul factor
    if extended.isInfinite then .ok extended else productFrom count (next + 1) extended

def factorial (x : Double) : Except Interruption (Except CalcError Double) :=
  if x.isLess (Double.zero false) || !x.isInteger then .ok (.error .factorialDomain)
  else do
    let n ← Interruptible.integer Interruptible.truncate x
    .ok <$> productFrom (n.toNat - 1) 2 (Double.ofNat 1)

def binary (operation : BinaryOperation) (left right : Double) :
    Except Interruption (Except CalcError Double) :=
  match operation with
  | .add => .ok (.ok (left.add right))
  | .subtract => .ok (.ok (left.sub right))
  | .multiply => .ok (.ok (left.mul right))
  | .divide => divide left right
  | .power => .ok <$> power left right

def unary (mode : AngleMode) (function : UnaryFunction) (x : Double) :
    Except Interruption (Except CalcError Double) :=
  match function with
  | .sin => .ok <$> ofAngle Double.sin (Standard.angle mode x)
  | .cos => .ok <$> ofAngle Double.cos (Standard.angle mode x)
  | .tan => .ok <$> ofAngle Double.tan (Standard.angle mode x)
  | .ln => logarithm .ln Double.ln x
  | .log => logarithm .log Double.log10 x
  | .sqrt => sqrt x
  | .exp => .ok <$> exp x
  | .factorial => factorial x

/-! ## They do not break off -/

theorem divide_eq (left right : Double) : divide left right = .ok (Standard.divide left right) := by
  simp only [divide, Standard.divide, Interruptible.quotient]
  split <;> rfl

theorem power_eq (base exponent : Double) :
    power base exponent = .ok (Standard.power base exponent) := by
  simp only [power, Standard.power, Interruptible.power]
  cases base.pow exponent with
  | ok result => rfl
  | error exception => cases exception <;> rfl

/-- The exponential breaks off for no reason but an overflow. -/
theorem ne_invalid_of_exp {x : Double} : x.exp ≠ .error .invalid := by
  intro hexp
  cases x with
  | nan | inf negative => exact absurd hexp nofun
  | finite negative mantissa exponent canonical =>
      simp only [Double.exp] at hexp
      split at hexp <;> split at hexp <;> cases hexp

theorem exp_eq (x : Double) : exp x = .ok (Standard.exp x) := by
  simp only [exp, Standard.exp, Interruptible.exp]
  cases hexp : x.exp with
  | ok result => rfl
  | error exception =>
      cases exception with
      | overflow => rfl
      | invalid => exact absurd hexp ne_invalid_of_exp

/-- A function that answers what is no angle as the guard does. -/
theorem ofAngle_eq {function : Double → Double} (hnan : function .nan = .nan)
    (hinf : ∀ negative, function (.inf negative) = .nan) (radians : Double) :
    ofAngle function radians = .ok (function radians) := by
  cases radians with
  | nan => exact congrArg Except.ok hnan.symm
  | inf negative => exact congrArg Except.ok (hinf negative).symm
  | finite negative mantissa exponent canonical => rfl

theorem logarithm_eq (name : UnaryFunction) (function : Double → Double) (x : Double) :
    logarithm name function x =
      .ok (if x.isAtMost (Double.zero false) then .error (.logarithmDomain name)
        else .ok (function x)) := by
  simp only [logarithm, Interruptible.logarithm, ← Double.isAtMost_zero]
  split <;> rfl

theorem sqrt_eq (x : Double) : sqrt x = .ok (Standard.sqrt x) := by
  simp only [sqrt, Standard.sqrt, Interruptible.squareRoot, ← Double.isLess_zero]
  split <;> rfl

/-- An integer with few enough bits can be converted. -/
theorem ofNat_of_le {n : Nat} (hle : n ≤ 2 ^ 11) :
    Interruptible.ofNat n = .ok (Double.ofNat n) ∧ (Double.ofNat n).isFinite = true := by
  have hratio : (n : ℚ) / (1 : Nat) ≤ (2 : ℚ) ^ (11 : Int) := by
    rw [Nat.cast_one, div_one]
    exact_mod_cast hle
  have hfinite : (Double.ofNat n).isFinite = true :=
    (Double.isWithin_ofFraction Nat.one_pos false (by decide) (by decide) hratio).1
  refine ⟨?_, hfinite⟩
  rw [Interruptible.ofNat,
    Double.isInfinite_eq_not_isFinite (Double.ne_nan_of_isFinite hfinite), hfinite]
  rfl

/-- A finite product of so many factors from two on is at least as large a power of two. So the
range ends before a factor is too large to be converted. -/
theorem productFrom_eq {count power : Nat} {product : Double} (hfinite : product.isFinite = true)
    (hlower : (2 : ℚ) ^ (power : Int) ≤ |product.toRat|) :
    productFrom count (power + 2) product =
      .ok (Standard.productFrom count (power + 2) product) := by
  induction count generalizing power product with
  | zero => rfl
  | succ count ih =>
      have hpower : power < 1024 := by
        have hless : (2 : ℚ) ^ (power : Int) < (2 : ℚ) ^ (1024 : Int) :=
          (hlower.trans (Double.abs_toRat_le hfinite)).trans_lt (by decide +kernel)
        exact_mod_cast (zpow_lt_zpow_iff_right₀ (by norm_num : (1 : ℚ) < 2)).mp hless
      obtain ⟨hconverted, hfactor⟩ := ofNat_of_le (show power + 2 ≤ 2 ^ 11 by omega)
      have htwo : (2 : ℚ) ^ (1 : Int) ≤ |(Double.ofNat (power + 2)).toRat| := by
        refine Double.le_abs_toRat_ofFraction (by omega) Nat.one_pos (by decide) ?_ hfactor
        rw [Nat.cast_one, div_one, zpow_one]
        exact_mod_cast Nat.le_add_left 2 power
      have hstep : Standard.productFrom (count + 1) (power + 2) product =
          if (product.mul (Double.ofNat (power + 2))).isInfinite
          then product.mul (Double.ofNat (power + 2))
          else Standard.productFrom count (power + 3) (product.mul (Double.ofNat (power + 2))) :=
        Standard.productFrom_succ count (power + 2) product
      simp only [productFrom, hconverted, bind_ok, hstep]
      split
      · rfl
      next hrange =>
        have hextended : (product.mul (Double.ofNat (power + 2))).isFinite = true := by
          simpa [Double.isInfinite_eq_not_isFinite (Double.mul_ne_nan hfinite hfactor)]
            using hrange
        refine ih hextended ?_
        push_cast
        exact Double.le_abs_toRat_mul hfinite hfactor hlower htwo
          (show (-1074 : Int) ≤ power + 1 by omega) hextended

theorem integer_truncate {x : Double} {n : Int} (hx : x.toInt? = some n) :
    Interruptible.integer Interruptible.truncate x = .ok n := by
  obtain ⟨hfinite, hvalue⟩ := Double.toInt?_eq_some_iff.mp hx
  have hwhole : Interruptible.truncate x = n := by
    rw [Interruptible.truncate, hvalue, Rat.num_intCast, Rat.den_intCast, Nat.cast_one,
      Int.tdiv_one]
  cases x with
  | nan | inf negative => exact absurd hfinite Bool.false_ne_true
  | finite negative mantissa exponent canonical => exact congrArg Except.ok hwhole

theorem factorial_eq (x : Double) : factorial x = .ok (Standard.factorial x) := by
  rcases Option.eq_none_or_eq_some x.toInt? with hnone | ⟨n, hn⟩
  · simp [factorial, Standard.factorial, Double.isInteger, hnone]
  · obtain ⟨hfinite, hvalue⟩ := Double.toInt?_eq_some_iff.mp hn
    have hless : x.isLess (Double.zero false) = decide (n < 0) := by
      rw [Bool.eq_iff_iff, Double.isLess_iff hfinite rfl, hvalue, Double.toRat_zero,
        decide_eq_true_eq]
      exact Int.cast_lt_zero
    simp only [factorial, Standard.factorial, Double.isInteger, hn, hless, integer_truncate hn,
      Option.isSome_some, Bool.not_true, Bool.or_false, decide_eq_true_eq, bind_ok]
    split
    · rfl
    · rw [productFrom_eq rfl (by decide +kernel)]
      rfl

/-- The operations of a formula do not break off, whatever doubles they are given. -/
theorem binary_eq (operation : BinaryOperation) (left right : Double) :
    binary operation left right = .ok (Standard.binary operation left right) := by
  cases operation with
  | add | subtract | multiply => rfl
  | divide => exact divide_eq left right
  | power => rw [binary, power_eq]; rfl

theorem unary_eq (mode : AngleMode) (function : UnaryFunction) (x : Double) :
    unary mode function x = .ok (Standard.unary mode function x) := by
  cases function with
  | sin => rw [unary, ofAngle_eq rfl fun _ => rfl]; rfl
  | cos => rw [unary, ofAngle_eq rfl fun _ => rfl]; rfl
  | tan => rw [unary, ofAngle_eq rfl fun _ => rfl]; rfl
  | ln => exact logarithm_eq .ln Double.ln x
  | log => exact logarithm_eq .log Double.log10 x
  | sqrt => exact sqrt_eq x
  | exp => rw [unary, exp_eq]; rfl
  | factorial => exact factorial_eq x

end Guarded

end SciCalc
