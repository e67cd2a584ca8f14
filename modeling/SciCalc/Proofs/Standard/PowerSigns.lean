import SciCalc.Proofs.Double.Powers
import SciCalc.Proofs.Standard.Guards

/-! # The sign of a power

The power of a machine breaks off beyond the range and for a base without a power. The calculator
answers both: with an infinity, whose sign it works out from the sign of the base and the parity of
the exponent, or with what is not a number. What it works out agrees with the machine, whatever the
machine's power is, as long as that treats a base and its opposite alike: opposite bases have equal
powers to an even integer and opposite powers to an odd one, whether or not the machine breaks off.
-/

namespace SciCalc

variable {base exponent : Double} {n : ℤ}

/-- The answer to a power of a machine, with what stands in for a power that breaks off. -/
def handledPower (pow : Double → Double → Except Interruption Double) (base exponent : Double) :
    Except Interruption Double :=
  match pow base exponent with
  | .ok result => .ok result
  | .error .overflow => .ok (Standard.signedInfinity base exponent)
  | .error .domain => .ok (if base.isZero then Standard.signedInfinity base exponent else .nan)
  | .error .zeroDivisor => .error .zeroDivisor

/-- What is relied on in the power of a machine. -/
structure IsMachinePower (pow : Double → Double → Except Interruption Double) : Prop where
  /-- Where opposite bases both have a power to an integer, the powers are equal or opposite. -/
  opposite : ∀ {base exponent x y : Double} {n : ℤ}, base ≠ .nan → exponent.toInt? = some n →
    pow base exponent = .ok x → pow base.neg exponent = .ok y → y = if Even n then x else x.neg
  /-- Whether a power to an integer lies beyond the range is a matter of the magnitude. -/
  overflow : ∀ {base exponent : Double} {n : ℤ}, base ≠ .nan → exponent.toInt? = some n →
    (pow base.abs exponent = .error .overflow ↔ pow base exponent = .error .overflow)
  /-- Only the bases without a power are refused. -/
  domain : ∀ {base exponent : Double},
    pow base exponent = .error .domain ↔ base.HasNoPower exponent
  zeroDivisor : ∀ {base exponent : Double}, pow base exponent ≠ .error .zeroDivisor

/-! ## The power of doubles -/

namespace Interruptible

theorem power_eq_ok_iff {result : Double} :
    power base exponent = .ok result ↔ base.pow exponent = .ok result := by
  rw [power]
  cases base.pow exponent <;> simp [Except.mapError]

theorem power_eq_error_iff {interruption : Interruption} :
    power base exponent = .error interruption ↔
      ∃ exception, base.pow exponent = .error exception ∧ ofException exception = interruption := by
  rw [power]
  cases base.pow exponent <;> simp [Except.mapError]

theorem isMachinePower_power : IsMachinePower power where
  opposite {base exponent x y n} hbase hexponent hx hy := by
    rw [power_eq_ok_iff] at hx hy
    rcases Int.even_or_odd n with heven | hodd
    · rw [Double.pow_neg_of_even hexponent heven, hx] at hy
      rw [if_pos heven, Except.ok.inj hy]
    · rw [Double.pow_neg_of_odd hexponent hodd hbase, hx] at hy
      rw [if_neg (Int.not_even_iff_odd.mpr hodd)]
      exact (Except.ok.inj hy).symm
  overflow hbase hexponent := by
    simp only [power_eq_error_iff, Double.pow_abs_eq_error_iff hexponent hbase]
  domain {base exponent} := by
    rw [power_eq_error_iff, ← Double.pow_eq_invalid_iff]
    constructor
    · rintro ⟨_ | _, hpow, hdomain⟩
      · exact nomatch hdomain
      · exact hpow
    · exact fun hpow => ⟨_, hpow, rfl⟩
  zeroDivisor {base exponent} hzero := by
    obtain ⟨_ | _, -, hinterruption⟩ := power_eq_error_iff.mp hzero
    · exact nomatch hinterruption
    · exact nomatch hinterruption

end Interruptible

/-! ## Opposite bases -/

theorem signedInfinity_neg (hbase : base ≠ .nan) (hexponent : exponent.toInt? = some n) :
    Standard.signedInfinity base.neg exponent =
      if Even n then Standard.signedInfinity base exponent
      else (Standard.signedInfinity base exponent).neg := by
  rw [Standard.signedInfinity, Standard.signedInfinity, Double.isNegative_neg hbase]
  rcases Int.even_or_odd n with heven | hodd
  · rw [if_pos heven, Double.isOddInteger_of_even hexponent heven, Bool.and_false, Bool.and_false]
  · rw [if_neg (Int.not_even_iff_odd.mpr hodd), (Double.isOddInteger_iff hexponent).mpr hodd,
      Bool.and_true, Bool.and_true, Double.neg_inf]

theorem hasNoPower_neg_iff (hexponent : exponent.toInt? = some n) :
    base.neg.HasNoPower exponent ↔ base.HasNoPower exponent := by
  simp only [Double.HasNoPower, Double.isFinite_neg, Double.toRat_neg, hexponent, neg_eq_zero,
    reduceCtorEq, and_false]

namespace IsMachinePower

variable {pow : Double → Double → Except Interruption Double} (hpow : IsMachinePower pow)
  (hbase : base ≠ .nan) (hexponent : exponent.toInt? = some n)

include hpow hexponent

/-- A base whose power to an integer is refused is zero. -/
theorem isZero_of_domain (hdomain : pow base exponent = .error .domain) : base.isZero = true := by
  obtain ⟨hfinite, -, ⟨hzero, -⟩ | ⟨-, hnone⟩⟩ := hpow.domain.mp hdomain
  · exact (Double.isZero_iff hfinite).mpr hzero
  · exact nomatch hexponent.symm.trans hnone

/-- A power to an integer that breaks off is answered with an infinity. -/
theorem handledPower_of_error {interruption : Interruption}
    (hresult : pow base exponent = .error interruption) :
    handledPower pow base exponent = .ok (Standard.signedInfinity base exponent) := by
  rw [handledPower, hresult]
  cases interruption with
  | zeroDivisor => exact absurd hresult hpow.zeroDivisor
  | overflow => rfl
  | domain => simp only [hpow.isZero_of_domain hexponent hresult, if_true]

include hbase

/-- The power breaks off for both of two opposite bases, or for neither. -/
theorem neg_eq_error_iff {interruption : Interruption} :
    pow base.neg exponent = .error interruption ↔ pow base exponent = .error interruption := by
  cases interruption with
  | zeroDivisor => exact iff_of_false hpow.zeroDivisor hpow.zeroDivisor
  | overflow =>
      rw [← hpow.overflow hbase hexponent, ← hpow.overflow (Double.neg_ne_nan hbase) hexponent,
        Double.abs_neg]
  | domain => rw [hpow.domain, hpow.domain, hasNoPower_neg_iff hexponent]

/-- Opposite bases are answered with equal powers to an even integer and with opposite ones to an
odd integer. -/
theorem handledPower_neg :
    ∃ result, handledPower pow base exponent = .ok result ∧
      handledPower pow base.neg exponent = .ok (if Even n then result else result.neg) := by
  have hneg : ∀ interruption, pow base.neg exponent = .error interruption ↔
      pow base exponent = .error interruption := fun _ => hpow.neg_eq_error_iff hbase hexponent
  cases hresult : pow base exponent with
  | ok result =>
      cases hopposite : pow base.neg exponent with
      | ok opposite =>
          refine ⟨result, by rw [handledPower, hresult], ?_⟩
          rw [handledPower, hopposite, hpow.opposite hbase hexponent hresult hopposite]
      | error interruption => exact nomatch ((hneg _).mp hopposite).symm.trans hresult
  | error interruption =>
      refine ⟨_, hpow.handledPower_of_error hexponent hresult, ?_⟩
      rw [hpow.handledPower_of_error hexponent ((hneg _).mpr hresult),
        signedInfinity_neg hbase hexponent]

end IsMachinePower

/-! ## The power of a formula -/

theorem handledPower_power (base exponent : Double) :
    handledPower Interruptible.power base exponent = .ok (Standard.power base exponent) :=
  Guarded.power_eq base exponent

/-- The power of a number to an integer is a number, and negative exactly for a base with a negative
sign and an odd integer. -/
theorem hasSign_power (hbase : base ≠ .nan) (hexponent : exponent.toInt? = some n) :
    (Standard.power base exponent).HasSign (base.isNegative && exponent.isOddInteger) := by
  have hhandled := handledPower_power base exponent
  cases hresult : Interruptible.power base exponent with
  | ok result =>
      rw [handledPower, hresult] at hhandled
      rw [← Except.ok.inj hhandled]
      exact Double.hasSign_pow hbase hexponent (Interruptible.power_eq_ok_iff.mp hresult)
  | error interruption =>
      rw [Interruptible.isMachinePower_power.handledPower_of_error hexponent hresult] at hhandled
      rw [← Except.ok.inj hhandled]
      exact Double.hasSign_inf _

/-- A number has a power to every integer, however large: a number that is negative exactly for a
base with a negative sign and an odd integer. The opposite number has the same power to an even
integer and the opposite one to an odd integer, for zeros of either sign, for infinities and beyond
the range too. This relation between the answers holds for every power of a machine that treats
opposite bases so where it does not break off. -/
theorem power_of_opposite (hbase : base ≠ .nan) (hexponent : exponent.toInt? = some n) :
    (∃ result, Standard.binary .power base exponent = .ok result ∧
        result.HasSign (base.isNegative && decide (Odd n)) ∧
        Standard.binary .power base.neg exponent = .ok (if Even n then result else result.neg)) ∧
      ∀ pow, IsMachinePower pow → ∃ result, handledPower pow base exponent = .ok result ∧
        handledPower pow base.neg exponent = .ok (if Even n then result else result.neg) := by
  refine ⟨?_, fun pow hpow => hpow.handledPower_neg hbase hexponent⟩
  obtain ⟨result, hresult, hopposite⟩ :=
    Interruptible.isMachinePower_power.handledPower_neg hbase hexponent
  rw [handledPower_power, Except.ok.injEq] at hresult hopposite
  refine ⟨result, congrArg Except.ok hresult, ?_, congrArg Except.ok hopposite⟩
  have hodd : exponent.isOddInteger = decide (Odd n) := by
    rw [Bool.eq_iff_iff, Double.isOddInteger_iff hexponent, decide_eq_true_iff]
  rw [← hresult, ← hodd]
  exact hasSign_power hbase hexponent

/-- Ten to the power 309 lies beyond the range, and zero has no power to minus three. -/
theorem power_of_opposite_at_infinities :
    (Double.ofInt 10 ≠ .nan ∧ (Double.ofInt 309).toInt? = some 309 ∧
      Standard.binary .power (Double.ofInt 10).neg (.ofInt 309) = .ok (.inf true)) ∧
    Double.zero false ≠ .nan ∧ (Double.ofInt (-3)).toInt? = some (-3) ∧
      handledPower Interruptible.power (Double.zero false).neg (.ofInt (-3)) = .ok (.inf true) := by
  have hten : Double.ofInt 10 ≠ .nan := by decide +kernel
  have hlarge : (Double.ofInt 309).toInt? = some 309 := by decide +kernel
  have hzero : Double.zero false ≠ .nan := by decide +kernel
  have hodd : (Double.ofInt (-3)).toInt? = some (-3) := by decide +kernel
  have hbeyond : Standard.binary .power (.ofInt 10) (.ofInt 309) = .ok (.inf false) := by
    decide +kernel
  have hnone : handledPower Interruptible.power (.zero false) (.ofInt (-3)) = .ok (.inf false) := by
    decide +kernel
  obtain ⟨result, hresult, -, hopposite⟩ := (power_of_opposite hten hlarge).1
  obtain ⟨infinite, hinfinite, hinfinite'⟩ :=
    (power_of_opposite hzero hodd).2 _ Interruptible.isMachinePower_power
  obtain rfl := Except.ok.inj (hbeyond.symm.trans hresult)
  obtain rfl := Except.ok.inj (hnone.symm.trans hinfinite)
  exact ⟨⟨hten, hlarge, hopposite⟩, hzero, hodd, hinfinite'⟩

end SciCalc
