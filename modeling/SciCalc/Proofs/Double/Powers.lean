import Mathlib.Algebra.Ring.Int.Parity
import SciCalc.Double.Elementary
import SciCalc.Proofs.Double.Nearest
import SciCalc.Proofs.Double.Signs
import SciCalc.Proofs.Double.WholeNumbers
import SciCalc.Proofs.Enclosure.Bounds
import SciCalc.Proofs.Outcome

/-! # Powers and signs

A power to an integer is computed from the magnitude of the base; of the sign of the base it keeps
nothing but whether it is negative and the exponent odd. So the base with the other sign has the
same power or the power with the other sign, and it has none exactly if the base has none. The
magnitude itself is never negative: wherever its enclosures settle, they settle at an exponential.
-/

namespace SciCalc.Double

variable {base exponent x : Double} {n : ℤ}

/-! ## Integer exponents -/

theorem isOddInteger_iff (hx : x.toInt? = some n) : x.isOddInteger = true ↔ Odd n := by
  rw [isOddInteger, hx, Int.odd_iff]
  exact beq_iff_eq

theorem isOddInteger_of_even (hx : x.toInt? = some n) (heven : Even n) :
    x.isOddInteger = false := by
  rw [← Bool.not_eq_true, isOddInteger_iff hx]
  exact Int.not_odd_iff_even.mpr heven

theorem isInteger_of_toInt? (hx : x.toInt? = some n) : x.isInteger = true := by
  rw [isInteger, hx]
  rfl

/-- Zero is even. -/
theorem isOddInteger_of_isZero (hx : x.isZero = true) : x.isOddInteger = false := by
  have hfinite : x.isFinite = true := by
    cases x with
    | nan | inf negative => exact nomatch hx
    | finite negative mantissa exponent canonical => rfl
  have hvalue : x.toRat = ((0 : ℤ) : ℚ) := by
    rw [(isZero_iff hfinite).mp hx, Int.cast_zero]
  exact isOddInteger_of_even (toInt?_eq_some_iff.mpr ⟨hfinite, hvalue⟩) Even.zero

/-! ## Changing the sign of the base -/

/-- To an even integer the base and the base with the other sign have the same power. -/
theorem pow_neg_of_even (hexponent : exponent.toInt? = some n) (heven : Even n) (base : Double) :
    base.neg.pow exponent = base.pow exponent := by
  have hodd := isOddInteger_of_even hexponent heven
  have hinteger := isInteger_of_toInt? hexponent
  cases exponent with
  | nan | inf negative => cases hexponent
  | finite negativePower power place canonical =>
      cases base with
      | nan => rfl
      | inf negative => simp only [neg_inf, pow, hodd, Bool.and_false]
      | finite negative mantissa place' canonical' =>
          simp only [neg_finite, pow, finitePower, hodd, hinteger, Bool.and_false, Bool.not_true]

/-- To an odd integer the base with the other sign has the power with the other sign. -/
theorem pow_neg_of_odd (hexponent : exponent.toInt? = some n) (hodd : Odd n) (hbase : base ≠ .nan) :
    base.neg.pow exponent = neg <$> base.pow exponent := by
  have hoddInteger := (isOddInteger_iff hexponent).mpr hodd
  have hinteger := isInteger_of_toInt? hexponent
  have hzero : exponent.isZero = false := by
    rw [← Bool.not_eq_true]
    intro hzero
    rw [isOddInteger_of_isZero hzero] at hoddInteger
    cases hoddInteger
  cases exponent with
  | nan | inf negative => cases hexponent
  | finite negativePower power place canonical =>
      cases base with
      | nan => exact absurd rfl hbase
      | inf negative =>
          simp only [neg_inf, pow, hoddInteger, hzero, Bool.and_true, Bool.false_eq_true, if_false]
          cases negativePower <;> rfl
      | finite negative mantissa place' canonical' =>
          have hpower : power ≠ 0 := by
            rintro rfl
            cases hzero
          simp only [neg_finite, pow, finitePower, hoddInteger, hinteger, Bool.and_true,
            Bool.not_true, Bool.and_false, Bool.false_eq_true, if_false, if_neg hpower]
          split
          · split <;> rfl
          · generalize positivePower mantissa place' (signedMantissa negativePower power) place =
              magnitude
            cases negative <;> cases hinfinite : magnitude.isInfinite <;> simp [hinfinite]

/-- To an integer both bases have a power, or neither has one, for the same reason. -/
theorem pow_neg_eq_error_iff (hexponent : exponent.toInt? = some n) (hbase : base ≠ .nan)
    {exception : Exception} :
    base.neg.pow exponent = .error exception ↔ base.pow exponent = .error exception := by
  rcases Int.even_or_odd n with heven | hodd
  · rw [pow_neg_of_even hexponent heven]
  · rw [pow_neg_of_odd hexponent hodd hbase, map_eq_error_iff]

theorem abs_eq_or_neg (x : Double) : x.abs = x ∨ x.abs = x.neg := by
  cases x with
  | nan => exact .inl rfl
  | inf negative | finite negative mantissa exponent canonical => cases negative <;> simp [abs]

/-- Whether a base has a power to an integer is a matter of its magnitude. -/
theorem pow_abs_eq_error_iff (hexponent : exponent.toInt? = some n) (hbase : base ≠ .nan)
    {exception : Exception} :
    base.abs.pow exponent = .error exception ↔ base.pow exponent = .error exception := by
  rcases base.abs_eq_or_neg with habs | habs
  · rw [habs]
  · rw [habs, pow_neg_eq_error_iff hexponent hbase]

/-! ## Bases without a power -/

/-- The base has no power of any size: zero has none to a negative exponent, and a negative number
none to what is no integer. -/
def HasNoPower (base exponent : Double) : Prop :=
  base.isFinite = true ∧ exponent.isFinite = true ∧
    (base.toRat = 0 ∧ exponent.toRat < 0 ∨ base.toRat < 0 ∧ exponent.toInt? = none)

theorem toRat_eq_zero_iff {negative : Bool} {mantissa : Nat} {place : Int}
    {canonical : IsCanonical mantissa place} :
    (finite negative mantissa place canonical).toRat = 0 ↔ mantissa = 0 := by
  rw [← isZero_iff rfl]
  cases mantissa <;> simp [isZero]

theorem toRat_neg_iff {negative : Bool} {mantissa : Nat} {place : Int}
    {canonical : IsCanonical mantissa place} (hmantissa : mantissa ≠ 0) :
    (finite negative mantissa place canonical).toRat < 0 ↔ negative = true := by
  have hvalue : (finite negative mantissa place canonical).toRat ≠ 0 :=
    mt toRat_eq_zero_iff.mp hmantissa
  have hsign : negative = decide _ := isNegative_eq hvalue
  rw [Bool.eq_iff_iff, decide_eq_true_iff] at hsign
  exact hsign.symm

/-- A result that is not infinite is a power; another one is an overflow. -/
theorem bounded_cases (result : Double) :
    let outcome : Except Exception Double :=
      if result.isInfinite then .error .overflow else .ok result
    outcome = .error .overflow ∨ outcome = .ok result := by
  intro outcome
  cases hinfinite : result.isInfinite with
  | true => exact .inl (if_pos hinfinite)
  | false => exact .inr (if_neg (hinfinite ▸ Bool.false_ne_true))

/-- For finite arguments only the values matter. -/
theorem finitePower_eq_invalid_iff {negative negativePower : Bool} {mantissa power : Nat}
    {place powerPlace : Int} (canonical : IsCanonical mantissa place)
    (canonical' : IsCanonical power powerPlace) :
    finitePower (finite negative mantissa place canonical)
        (finite negativePower power powerPlace canonical') = .error .invalid ↔
      (finite negative mantissa place canonical).toRat = 0 ∧
          (finite negativePower power powerPlace canonical').toRat < 0 ∨
        (finite negative mantissa place canonical).toRat < 0 ∧
          (finite negativePower power powerPlace canonical').toInt? = none := by
  rw [finitePower]
  split
  next hpower =>
    have hzero : (finite negativePower power powerPlace canonical').toRat = 0 :=
      toRat_eq_zero_iff.mpr hpower
    have hinteger : (finite negativePower power powerPlace canonical').toInt? = some 0 :=
      toInt?_eq_some_iff.mpr ⟨rfl, hzero.trans Int.cast_zero.symm⟩
    refine iff_of_false (by simp) ?_
    rintro (⟨-, hlt⟩ | ⟨-, hnone⟩)
    · exact hlt.ne hzero
    · cases hinteger.symm.trans hnone
  next hpower =>
    split
    next hmantissa =>
      have hzero : (finite negative mantissa place canonical).toRat = 0 :=
        toRat_eq_zero_iff.mpr hmantissa
      rw [hzero, toRat_neg_iff hpower]
      cases negativePower <;> simp
    next hmantissa =>
      have hzero : (finite negative mantissa place canonical).toRat ≠ 0 :=
        mt toRat_eq_zero_iff.mp hmantissa
      rw [toRat_neg_iff hmantissa, isInteger]
      split
      next hinvalid =>
        obtain ⟨hnegative, hnone⟩ := (Bool.and_eq_true _ _).mp hinvalid
        exact iff_of_true rfl (.inr ⟨hnegative, by simpa using hnone⟩)
      next hvalid =>
        refine iff_of_false ?_ ?_
        · intro hinvalid
          rcases bounded_cases _ with hoverflow | hresult
          · cases hoverflow.symm.trans hinvalid
          · cases hresult.symm.trans hinvalid
        · rintro (⟨hvalue, -⟩ | ⟨hnegative, hnone⟩)
          · exact hzero hvalue
          · exact hvalid (by rw [hnegative, hnone]; rfl)

/-- Where one of the arguments is not finite there is always a power. -/
theorem exists_pow (hfinite : (base.isFinite && exponent.isFinite) = false) :
    ∃ x, base.pow exponent = .ok x := by
  cases base with
  | nan => exact ⟨_, rfl⟩
  | inf negative =>
      cases exponent with
      | nan => exact ⟨_, rfl⟩
      | inf other => exact ⟨_, rfl⟩
      | finite negativePower power powerPlace canonical =>
          simp only [pow]
          split <;> exact ⟨_, rfl⟩
  | finite negative mantissa place canonical =>
      cases exponent with
      | nan => exact ⟨_, rfl⟩
      | inf other =>
          simp only [pow]
          split <;> exact ⟨_, rfl⟩
      | finite negativePower power powerPlace canonical' => cases hfinite

/-- A power is invalid exactly for the bases that have none. -/
theorem pow_eq_invalid_iff : base.pow exponent = .error .invalid ↔ HasNoPower base exponent := by
  cases hfinite : base.isFinite && exponent.isFinite with
  | false =>
      obtain ⟨x, hpow⟩ := exists_pow hfinite
      rw [hpow]
      refine iff_of_false nofun ?_
      rintro ⟨hbase, hexponent, -⟩
      rw [hbase, hexponent] at hfinite
      exact nomatch hfinite
  | true =>
      obtain ⟨hbase, hexponent⟩ := (Bool.and_eq_true _ _).mp hfinite
      cases base with
      | nan | inf negative => exact nomatch hbase
      | finite negative mantissa place canonical =>
          cases exponent with
          | nan | inf other => exact nomatch hexponent
          | finite negativePower power powerPlace canonical' =>
              rw [pow, finitePower_eq_invalid_iff]
              exact ⟨fun hno => ⟨rfl, rfl, hno⟩, fun hno => hno.2.2⟩

/-! ## The sign of a power -/

/-- A number with the given sign. -/
def HasSign (negative : Bool) (x : Double) : Prop := x ≠ .nan ∧ x.isNegative = negative

theorem HasSign.neg {negative : Bool} (hx : HasSign negative x) : HasSign (!negative) x.neg :=
  ⟨neg_ne_nan hx.1, (isNegative_neg hx.1).trans (congrArg not hx.2)⟩

theorem hasSign_inf (negative : Bool) : HasSign negative (inf negative) := ⟨nofun, rfl⟩

theorem hasSign_zero (negative : Bool) : HasSign negative (zero negative) := ⟨nofun, rfl⟩

theorem hasSign_ofFraction (negative : Bool) (num den : Nat) :
    HasSign negative (ofFraction negative num den) :=
  ⟨ofFraction_ne_nan negative num den, isNegative_ofFraction negative num den⟩

theorem hasSign_ofScaled {mantissa : Int} (hmantissa : 0 ≤ mantissa) (exponent : Int) :
    HasSign false (ofScaled mantissa exponent) := by
  have hsign : decide (mantissa < 0) = false := decide_eq_false (not_lt.mpr hmantissa)
  simp only [ofScaled, hsign]
  split
  · exact hasSign_zero false
  split
  · exact hasSign_inf false
  split
  · exact hasSign_zero false
  · exact hasSign_ofFraction false _ _

/-- Whichever enclosure settles the power of a positive number, what is rounded is not negative. -/
theorem hasSign_positivePower (mantissa : Nat) (place power powerPlace : Int) :
    HasSign false (positivePower mantissa place power powerPlace) := by
  unfold positivePower
  split
  · exact hasSign_ofScaled (Int.natCast_nonneg _) _
  · have hmiddle : ∀ width,
        0 ≤ (Enclosure.pow width mantissa place power powerPlace).middle := fun width =>
      Enclosure.middle_exp_nonneg _ _
    obtain ⟨scaled, scale, hscaled, hsettled⟩ :=
      Enclosure.exists_settleFrom_of_ends (P := fun scaled _ => 0 ≤ scaled) 53 40
        (fun width _ => ⟨_, rfl, hmiddle width, .inr <|
          Int.add_nonneg (hmiddle width) (Int.natCast_nonneg _)⟩) ofScaled nan 14
    rw [ofEnclosure, Enclosure.settle, hsettled]
    exact hasSign_ofScaled hscaled scale

theorem hasSign_finitePower {negative negativePower : Bool} {mantissa power : Nat}
    {place powerPlace : Int} (canonical : IsCanonical mantissa place)
    (canonical' : IsCanonical power powerPlace)
    (hpower : finitePower (finite negative mantissa place canonical)
      (finite negativePower power powerPlace canonical') = .ok x) :
    HasSign (negative && (finite negativePower power powerPlace canonical').isOddInteger) x := by
  rw [finitePower] at hpower
  split at hpower
  next hzero =>
    subst hzero
    have hexponent : (finite negativePower 0 powerPlace canonical').isZero = true := rfl
    obtain rfl := Except.ok.inj hpower
    rw [isOddInteger_of_isZero hexponent, Bool.and_false]
    exact hasSign_ofFraction false _ _
  split at hpower
  · split at hpower
    · cases hpower
    · obtain rfl := Except.ok.inj hpower
      exact hasSign_zero _
  split at hpower
  · cases hpower
  rcases bounded_cases _ with hoverflow | hresult
  · cases hoverflow.symm.trans hpower
  obtain rfl := Except.ok.inj (hresult.symm.trans hpower)
  have hmagnitude := hasSign_positivePower mantissa place (signedMantissa negativePower power)
    powerPlace
  split
  next hsign => exact hsign ▸ hmagnitude.neg
  next hsign => exact (Bool.not_eq_true _).mp hsign ▸ hmagnitude

/-- The power of a number to an integer is negative exactly for a base with a negative sign and an
odd integer. -/
theorem hasSign_pow (hbase : base ≠ .nan) (hexponent : exponent.toInt? = some n)
    (hpow : base.pow exponent = .ok x) :
    HasSign (base.isNegative && exponent.isOddInteger) x := by
  cases exponent with
  | nan | inf other => exact nomatch hexponent
  | finite negativePower power powerPlace canonical =>
      cases base with
      | nan => exact absurd rfl hbase
      | inf negative =>
          simp only [pow] at hpow
          split at hpow
          next hzero =>
            obtain rfl := Except.ok.inj hpow
            rw [isOddInteger_of_isZero hzero, Bool.and_false]
            exact hasSign_ofFraction false _ _
          · obtain rfl := Except.ok.inj hpow
            split
            · exact hasSign_zero _
            · exact hasSign_inf _
      | finite negative mantissa place canonical' => exact hasSign_finitePower canonical' canonical hpow

end SciCalc.Double
