import SciCalc.Proofs.Display.Totality
import SciCalc.Proofs.Formula.Rejection
import SciCalc.Proofs.Standard.Guards

/-! # Evaluating and displaying never break off

An evaluation over operations that break off ends at the first one that does, whatever would still
follow. None does, so it gives what the evaluation over the standard arithmetic gives: a value or an
error of a calculation. In the same way a number is displayed with a logarithm, conversions and
divisions that may break off, and none of them does, not even at the least and the greatest
doubles. And where the test says that a numeral begins, there is a numeral to be read.
-/

namespace SciCalc

namespace Guarded

/-! ## Evaluating -/

/-- The effect of a token on the stack. Only an operation that is called can break off. -/
def step (mode : AngleMode) (stack : List Double) (token : Token) :
    Except Interruption (Except Fault (List Double)) :=
  match token, stack with
  | .operator symbol _, right :: left :: rest =>
    match BinaryOperation.ofSymbol? symbol with
    | some operation =>
      (fun result => (· :: rest) <$> ofCalculation result) <$> binary operation left right
    | none => .ok (Formula.step Standard.arithmetic mode stack token)
  | .function name, argument :: rest =>
    match UnaryFunction.ofName? name with
    | some function =>
      (fun result => (· :: rest) <$> ofCalculation result) <$> unary mode function argument
    | none => .ok (Formula.step Standard.arithmetic mode stack token)
  | _, _ => .ok (Formula.step Standard.arithmetic mode stack token)

/-- The effect of a list of tokens on the stack, up to the first fault or to the first operation
that breaks off. -/
def run (mode : AngleMode) :
    List Double → List Token → Except Interruption (Except Fault (List Double))
  | stack, [] => .ok (.ok stack)
  | stack, token :: rest => do
    match ← step mode stack token with
    | .ok stack => run mode stack rest
    | .error fault => .ok (.error fault)

/-- The value of a formula in the mode that a value of any kind names. -/
def evaluateIn (mode : Datum) (formula : String) : Except Interruption (Except Fault Double) :=
  let prepared : Except Fault (AngleMode × List Token) := do
    let mode ← AngleMode.ofDatum mode
    let tokens ← Token.tokenize formula
    return (mode, ← Token.toPostfix tokens)
  match prepared with
  | .ok (mode, ordered) => (· >>= Formula.single) <$> run mode [] ordered
  | .error fault => .ok (.error fault)

theorem step_eq (mode : AngleMode) (stack : List Double) (token : Token) :
    step mode stack token = .ok (Formula.step Standard.arithmetic mode stack token) := by
  unfold step
  split
  next symbol _ right left rest =>
    cases hmeant : BinaryOperation.ofSymbol? symbol with
    | none => rfl
    | some operation =>
        simp only [Formula.step, Formula.applyOperator, hmeant, binary_eq]
        rfl
  next name argument rest =>
    cases hmeant : UnaryFunction.ofName? name with
    | none => rfl
    | some function =>
        simp only [Formula.step, Formula.applyFunction, hmeant, unary_eq]
        rfl
  · rfl

theorem run_eq (mode : AngleMode) (stack : List Double) (tokens : List Token) :
    run mode stack tokens = .ok (Formula.run Standard.arithmetic mode stack tokens) := by
  induction tokens generalizing stack with
  | nil => rfl
  | cons token rest ih =>
      rw [run, step_eq, bind_ok, Formula.run]
      cases Formula.step Standard.arithmetic mode stack token with
      | ok stack => exact ih stack
      | error fault => rfl

/-- An evaluation does not break off, and gives what the standard arithmetic gives. -/
theorem evaluateIn_eq (mode : Datum) (formula : String) :
    evaluateIn mode formula = .ok (Formula.evaluateIn Standard.arithmetic mode formula) := by
  simp only [evaluateIn, Formula.evaluateIn, Formula.evaluate, Formula.evaluatePostfix]
  cases AngleMode.ofDatum mode with
  | error fault => rfl
  | ok mode =>
      cases Token.tokenize formula with
      | error fault => rfl
      | ok tokens =>
          cases hordered : Token.toPostfix tokens with
          | error fault => simp [hordered]
          | ok ordered => simp [hordered, run_eq]

/-! ## Displaying -/

/-- Rounds a double to significant digits. -/
def roundDouble (x : Double) (digits : Nat) : Except Interruption Number := do
  let nearest := Display.nearestDecimal digits x
  let logarithm ← Interruptible.logarithm Double.log10 x.abs
  let place := (digits : Int) - (← Interruptible.integer Double.floor logarithm) - 1
  if 0 ≤ place then
    let scale ← Interruptible.ofNat (tenPow place.toNat)
    let scaled ← Interruptible.integer Double.round (nearest.mul scale)
    Number.float <$> Interruptible.ratio scaled (tenPow place.toNat)
  else
    let scale ← Interruptible.ofNat (tenPow (-place).toNat)
    let quotient ← Interruptible.quotient nearest scale
    let scaled ← Interruptible.integer Double.round quotient
    return .int (scaled * tenPow (-place).toNat)

/-- The display text of a double, which is not rounded if it is zero or no finite number. -/
def formatDouble (x : Double) : Except Interruption String :=
  if x.isNan then .ok "Error"
  else if x.isInfinite then .ok (if x.isNegative then "-Infinity" else "Infinity")
  else if x.isZero then .ok "0"
  else if Settings.largeThreshold.isAtMost x.abs || x.abs.isLess Settings.smallThreshold ||
      x.abs.isLess Settings.exponentThreshold then .ok (Display.scientific x)
  else (fun rounded => Display.cutFraction (Display.plainText rounded)) <$>
    roundDouble x Settings.displayDigits

/-- The display text of a typed text. -/
def formatInput (text : String) : Except Interruption String :=
  if Display.isPartialInput text then .ok text
  else
    match Double.ofText? text with
    | none => .ok "0"
    | some x => if x.isNan then .ok "0" else formatDouble x

variable {x : Double} {n : Int}

theorem integer_of_nearestInteger (hn : Display.nearestInteger x = .ok n) :
    Interruptible.integer Double.round x = .ok n := by
  cases x with
  | nan | inf negative => cases hn
  | finite negative mantissa exponent canonical => exact congrArg Except.ok (Except.ok.inj hn)

/-- Where a double other than zero has a magnitude, its logarithm and the integer below that do
not break off. -/
theorem magnitude_of_not_isZero (hzero : x.isZero = false) (hn : Display.magnitude x = .ok n) :
    Interruptible.logarithm Double.log10 x.abs = .ok x.abs.log10 ∧
      Interruptible.integer Double.floor x.abs.log10 = .ok n := by
  constructor
  · have hpositive : (x.abs.isZero || x.abs.isNegative) = false := by
      cases x with
      | nan | inf negative => rfl
      | finite negative mantissa exponent canonical =>
          cases mantissa with
          | zero => cases hzero
          | succ mantissa => rfl
    rw [Interruptible.logarithm, hpositive]
    rfl
  · simp only [Display.magnitude] at hn
    generalize x.abs.log10 = logarithm at hn
    cases logarithm with
    | nan | inf negative => cases hn
    | finite negative mantissa exponent canonical => exact congrArg Except.ok (Except.ok.inj hn)

/-- The powers of ten that are used as a scale can be converted, and none is zero. -/
theorem ofNat_of_powerOfTen {exponent : Nat} {power : Double}
    (hpower : Display.powerOfTen exponent = .ok power) :
    Interruptible.ofNat (tenPow exponent) = .ok power ∧ power.isZero = false := by
  have hrange : exponent ≤ 308 := by
    by_contra! hbeyond
    rw [Display.powerOfTen, if_pos hbeyond] at hpower
    cases hpower
  obtain ⟨power', hpower', hfinite, hnonzero, -⟩ := Display.exists_powerOfTen_near hrange
  obtain rfl : power = power' := Except.ok.inj (hpower.symm.trans hpower')
  have hconverted : power = Double.ofNat (tenPow exponent) := by
    rw [Display.powerOfTen, if_neg (not_lt.mpr hrange)] at hpower
    exact (Except.ok.inj hpower).symm
  constructor
  · rw [Interruptible.ofNat, ← hconverted,
      Double.isInfinite_eq_not_isFinite (Double.ne_nan_of_isFinite hfinite), hfinite]
    rfl
  · rw [← Bool.not_eq_true, Double.isZero_iff hfinite]
    exact hnonzero

/-- Where a double other than zero can be rounded, nothing breaks off on the way, unless the result
is an infinity. -/
theorem roundDouble_eq {digits : Nat} {number : Number} (hzero : x.isZero = false)
    (hround : Display.roundDouble x digits = .ok number)
    (hfinite : ∀ y, number = .float y → y.isFinite = true) :
    roundDouble x digits = .ok number := by
  simp only [Display.roundDouble, Display.roundAt] at hround
  obtain ⟨exponent, hmagnitude, hround⟩ := bind_eq_ok_iff.mp hround
  obtain ⟨hlogarithm, hfloor⟩ := magnitude_of_not_isZero hzero hmagnitude
  simp only [roundDouble, hlogarithm, hfloor, bind_ok]
  split at hround
  next hplace =>
    obtain ⟨power, hpower, hround⟩ := bind_eq_ok_iff.mp hround
    obtain ⟨scaled, hscaled, hround⟩ := bind_eq_ok_iff.mp hround
    obtain rfl := Except.ok.inj hround
    rw [if_pos hplace, (ofNat_of_powerOfTen hpower).1, bind_ok, integer_of_nearestInteger hscaled,
      bind_ok]
    have hrange : (Double.ofFraction (scaled < 0) scaled.natAbs
        (tenPow (digits - exponent - 1).toNat)).isInfinite = false := by
      rw [Double.isInfinite_eq_not_isFinite (Double.ofFraction_ne_nan _ _ _), hfinite _ rfl]
      rfl
    have hscale : tenPow (digits - exponent - 1).toNat ≠ 0 := (Nat.pow_pos (by decide)).ne'
    rw [Interruptible.ratio, if_neg hscale, hrange]
    rfl
  next hplace =>
    obtain ⟨power, hpower, hround⟩ := bind_eq_ok_iff.mp hround
    obtain ⟨scaled, hscaled, hround⟩ := bind_eq_ok_iff.mp hround
    obtain ⟨hscale, hnonzero⟩ := ofNat_of_powerOfTen hpower
    rw [if_neg hplace, hscale, bind_ok, Interruptible.quotient, hnonzero, if_neg Bool.false_ne_true,
      bind_ok, integer_of_nearestInteger hscaled, bind_ok]
    exact congrArg Except.ok (Except.ok.inj hround)

/-- Displaying a double does not break off, and gives its display text. -/
theorem exists_text (x : Double) :
    ∃ text, formatDouble x = .ok text ∧ Display.formatDouble x = .ok text := by
  simp only [formatDouble, Display.formatDouble, Display.format, Number.toDouble?]
  split
  · exact ⟨_, rfl, rfl⟩
  next hnan =>
  split
  · exact ⟨_, rfl, rfl⟩
  next hinfinite =>
  split
  · exact ⟨_, rfl, rfl⟩
  next hzero =>
  split
  · exact ⟨_, rfl, rfl⟩
  next hplain =>
    obtain ⟨number, hnumber, hfinite⟩ := Display.exists_rounded hnan hinfinite hplain
    have hrounded : Display.roundToPrecision (.float x) Settings.displayDigits = .ok number := by
      simp only [Display.roundToPrecision, Number.toDouble?, hzero, Bool.false_eq_true, if_false]
      exact hnumber
    rw [roundDouble_eq (Bool.not_eq_true _ ▸ hzero) hnumber hfinite, hrounded]
    exact ⟨_, rfl, rfl⟩

theorem exists_text_of_input (typed : String) :
    ∃ text, formatInput typed = .ok text ∧ Display.formatInput typed = .ok text := by
  simp only [formatInput, Display.formatInput]
  split
  · exact ⟨_, rfl, rfl⟩
  cases Double.ofText? typed with
  | none => exact ⟨_, rfl, rfl⟩
  | some x =>
      dsimp only
      split
      · exact ⟨_, rfl, rfl⟩
      · exact exists_text x

end Guarded

/-! ## Numerals -/

namespace Lexeme

/-- The longest numeral at the start of a text, and what follows. There is none without a digit
before the power of ten. -/
def matchNumeral? (cs : List Char) : Option (List Char × List Char) :=
  let (point, afterPoint) := splitPoint (cs.dropWhile Char.isDigit)
  if (cs.takeWhile Char.isDigit).isEmpty && !point.any Char.isDigit then none
  else
    let (power, rest) := splitPower afterPoint
    some (cs.takeWhile Char.isDigit ++ point ++ power, rest)

/-- There is a numeral to be read exactly where the test says that one begins. -/
theorem matchNumeral?_eq (cs : List Char) :
    matchNumeral? cs = if startsNumeral cs then some (splitNumeral cs) else none := by
  have hdigit : ((cs.takeWhile Char.isDigit).isEmpty &&
      !(splitPoint (cs.dropWhile Char.isDigit)).1.any Char.isDigit) = !startsNumeral cs := by
    cases cs with
    | nil => rfl
    | cons c rest =>
        by_cases hc : c.isDigit = true
        · cases rest <;> simp [startsNumeral, hc]
        by_cases hpoint : c = '.'
        · subst hpoint
          -- The digits behind the point are looked for in the text, the test looks at one character.
          cases rest with
          | nil => rfl
          | cons next rest => cases hnext : next.isDigit <;> simp [splitPoint, startsNumeral, hnext]
        · have hsplit : splitPoint (c :: rest) = ([], c :: rest) :=
            splitPoint_of_head fun first hfirst => by
              obtain rfl : c = first := by simpa using hfirst
              exact hpoint
          cases rest <;> simp [startsNumeral, hc, hpoint, hsplit]
  simp only [matchNumeral?, hdigit]
  cases startsNumeral cs <;> rfl

end Lexeme

/-- Evaluating a formula in whatever mode, displaying a number or a typed text, and reading a
numeral do not break off: an evaluation has a value or an error of a calculation, every number and
every typed text has a display text, and where a numeral begins there is one to be read. -/
theorem evaluates_and_displays (mode : Datum) (formula typed : String) (x : Double)
    (cs : List Char) :
    (∃ result, Guarded.evaluateIn mode formula = .ok result ∧
      Formula.evaluateIn Standard.arithmetic mode formula = result ∧
      ((∃ value, result = .ok value) ∨ ∃ error, result = .error (.calculation error))) ∧
    (∃ text, Guarded.formatDouble x = .ok text ∧ Display.formatDouble x = .ok text) ∧
    (∃ text, Guarded.formatInput typed = .ok text ∧ Display.formatInput typed = .ok text) ∧
    Lexeme.matchNumeral? cs =
      if Lexeme.startsNumeral cs then some (Lexeme.splitNumeral cs) else none := by
  refine ⟨⟨_, Guarded.evaluateIn_eq mode formula, rfl, ?_⟩, Guarded.exists_text x,
    Guarded.exists_text_of_input typed, Lexeme.matchNumeral?_eq cs⟩
  have hfails : FailsAsCalculation (Formula.evaluateIn Standard.arithmetic mode formula) :=
    (Formula.failsAsCalculation_ofDatum mode).bind fun mode _ =>
      Formula.failsAsCalculation_evaluate Formula.readsDoubles_standard mode formula
  cases hresult : Formula.evaluateIn Standard.arithmetic mode formula with
  | ok value => exact .inl ⟨value, rfl⟩
  | error fault =>
      obtain ⟨error, rfl⟩ := hfails fault hresult
      exact .inr ⟨error, rfl⟩

end SciCalc
