import SciCalc.Proofs.BigFloat.SignificantDigits
import SciCalc.Proofs.Precise.MoreDigits
import SciCalc.Proofs.Precise.NormalValues

/-! # Precise results that are integers

An evaluation carries far more bits than the 53 with which its result is looked at before it is
shown. So an integer is shown in full just if it fits in 53 bits; another one is not taken for an
integer, and is shown with its significant digits.
-/

namespace SciCalc

open BigFloat

namespace Precise

/-- An integer that does not fit in 53 bits is shown like a number that is no integer: with a point,
and with as many digits as are asked for. -/
theorem exists_written_format {n : ℤ} (hn : n.natAbs < 10 ^ 18)
    (hfits : ¬FitsIn inspectionBits n) {digits : ℕ} (hdigits : 0 < digits) :
    ∃ written : Written, format (ofInt n) digits =
        String.ofList ((if decide (n < 0) then ['-'] else []) ++ written.chars) ∧
      written.fraction ≠ [] ∧ written.size = significant digits n.natAbs := by
  have hseen := mt (floorRounded_ofInt_eq_iff (show 0 < inspectionBits by decide) n).mp hfits
  obtain ⟨mantissa, places, hform, -, rfl⟩ := exists_ofInt n
  have hmantissa : mantissa ≠ 0 := by
    rintro rfl
    exact hfits (fitsIn_of_natAbs_lt (by rw [Int.zero_mul]; decide))
  rw [natAbs_mul_two_pow] at hn ⊢
  have hreach : mantissa.natAbs * 2 ^ places < 2 ^ cutReach :=
    (hn.trans (show 10 ^ 18 < 2 ^ 60 by decide)).trans_le
      (Nat.pow_le_pow_right Nat.two_pos (by decide))
  rw [hform] at hseen ⊢
  unfold format
  dsimp only
  rw [if_neg hmantissa, if_neg (by simp [hseen])]
  obtain ⟨written, htext, hfraction, hsize⟩ :=
    exists_written_significantText hdigits _ hmantissa hreach
  refine ⟨written, htext.trans ?_, hfraction, hsize⟩
  simp only [mul_two_pow_neg_iff, decide_eq_true_eq]

/-- What is shown in full has no point. -/
theorem point_notMem_toString (n : ℤ) : '.' ∉ (toString n).toList := by
  rw [toList_toString_int, List.mem_append]
  rintro (hsign | hdigit)
  · split at hsign <;> simp at hsign
  · exact absurd (Nat.isDigit_of_mem_toDigits (by decide) (by decide) hdigit) (by decide)

theorem significant_natAbs (count : ℕ) (n : ℤ) :
    (if decide (n < 0) then -significant count n.natAbs else significant count n.natAbs) =
      significant count n := by
  rw [Nat.cast_natAbs, ← significant_neg]
  by_cases hnegative : n < 0
  · rw [if_pos (decide_eq_true hnegative), abs_of_neg hnegative, Int.cast_neg, neg_neg]
  · rw [if_neg (by simpa using hnegative), abs_of_nonneg (not_lt.mp hnegative)]

/-- An integer below `10 ^ 18` is shown in full just if it fits in 53 bits. Otherwise the text is
read as the integer rounded to the digits that are shown. -/
theorem format_integer {n : ℤ} (hn : n.natAbs < 10 ^ 18) {digits : ℕ} (hdigits : 0 < digits) :
    (format (ofInt n) digits = toString n ↔ FitsIn inspectionBits n) ∧
      (¬FitsIn inspectionBits n → ∃ d : Decimal,
        Numeral.ofText? (format (ofInt n) digits) = some (.decimal d) ∧
          d.toRat = significant digits n) := by
  by_cases hfits : FitsIn inspectionBits n
  · exact ⟨iff_of_true (format_ofInt hfits hn digits) hfits, fun hnot => absurd hfits hnot⟩
  · obtain ⟨written, htext, hfraction, hsize⟩ := exists_written_format hn hfits hdigits
    have hpoint : written.pointChars = '.' :: written.fraction := if_neg (by simpa using hfraction)
    refine ⟨iff_of_false (fun hfull => point_notMem_toString n ?_) hfits,
      fun _ => ⟨written.decimal (n < 0), ?_, ?_⟩⟩
    · rw [← hfull, htext, String.toList_ofList, Written.chars, hpoint]
      simp
    · rw [htext, Numeral.ofText?_written]
    · rw [Written.toRat_decimal, hsize, significant_natAbs]

end Precise

namespace PreciseCalculator

variable {calculator : PreciseCalculator} {command : Command}

/-! ## What a call works with -/

theorem workingDigits_apply (calculator : PreciseCalculator) (command : Command) :
    (calculator.apply command).state.workingDigits =
      calculator.digitsFor calculator.workingDigits command := by
  rw [(apply_eq calculator command).2]
  cases calculator.attempt command <;> rfl

theorem le_workingDigits_apply {fewest : ℕ} (hinitial : fewest ≤ calculator.initialDigits)
    (hworking : fewest ≤ calculator.workingDigits) :
    fewest ≤ (calculator.apply command).state.workingDigits := by
  rw [workingDigits_apply]
  cases command with
  | evaluate formula mode => exact hinitial
  | expand =>
      rw [digitsFor]
      split
      · exact hworking.trans (Nat.le_add_right _ _)
      · exact hworking

/-- No call works with fewer digits than the calculator started with. -/
theorem le_workingDigits_after {fewest : ℕ} (hinitial : fewest ≤ calculator.initialDigits)
    (hworking : fewest ≤ calculator.workingDigits) (commands : List Command) :
    fewest ≤ (calculator.after commands).workingDigits := by
  induction commands generalizing calculator with
  | nil => exact hworking
  | cons command rest ih =>
      refine ih ?_ (le_workingDigits_apply hinitial hworking)
      rwa [(apply_keeps_setting calculator command).1]

/-! ## Integers -/

/-- Whatever has happened before, a call whose value is an integer below `10 ^ 18` answers with the
integer in full just if it fits in 53 bits, for all that the value carries more of them. Otherwise
the answer is read as the integer rounded to the working digits. -/
theorem integer_in_full_iff_fits (initialDigits digitStep : Int) (history : List Command)
    (command : Command)
    (hok : (((create initialDigits digitStep).after history).apply command).reply.isOk)
    {x : BigFloat}
    (hlast : (((create initialDigits digitStep).after history).apply command).state.lastValue =
      some x) {n : ℤ} (hx : x.Denotes n) (hn : n.natAbs < 10 ^ 18) :
    let outcome := ((create initialDigits digitStep).after history).apply command
    ∃ text, outcome.reply = .ok (.text text) ∧
      (text = toString n ↔ FitsIn Precise.inspectionBits n) ∧
      (¬FitsIn Precise.inspectionBits n → ∃ d : Decimal,
        Numeral.ofText? text = some (.decimal d) ∧
          d.toRat = significant outcome.state.workingDigits n) := by
  intro outcome
  obtain ⟨formula, mode, y, -, hreply, hstands⟩ := exists_standsAt_of_apply hok
  obtain rfl : x = y := Option.some.inj (hlast.symm.trans hstands.lastValue)
  rw [← workingDigits_apply, eq_ofInt_of_value hstands.value hx] at hreply
  have hstarted : 1 ≤ (create initialDigits digitStep).initialDigits := by
    have hinitial := initialDigits_create initialDigits digitStep
    omega
  have hkept := (after_keeps_setting (create initialDigits digitStep) history).1
  have hdigits : 1 ≤ outcome.state.workingDigits :=
    le_workingDigits_apply (hkept ▸ hstarted) (le_workingDigits_after hstarted hstarted history)
  exact ⟨_, hreply, Precise.format_integer hn hdigits⟩

/-- The power `3 ^ 37` takes 59 bits: with thirty digits its eighteen are all there, but not as an
integer. -/
theorem integer_in_full_iff_fits_of_power :
    (((create 20 10).after [.evaluate "3^37" (.text "rad")]).apply .expand).reply.isOk ∧
      (((create 20 10).after [.evaluate "3^37" (.text "rad")]).apply .expand).state.lastValue =
        some (ofInt (3 ^ 37)) ∧
      ¬FitsIn Precise.inspectionBits (3 ^ 37) ∧
      ∃ text, ((create 20 10).after [.evaluate "3^37" (.text "rad")]).expand.reply =
          .ok (.text text) ∧
        text ≠ toString (3 ^ 37 : ℤ) ∧
        ∃ d : Decimal, Numeral.ofText? text = some (.decimal d) ∧
          d.toRat = significant 30 ((3 ^ 37 : ℤ) : ℚ) := by
  have hok : (((create 20 10).after [.evaluate "3^37" (.text "rad")]).apply .expand).reply.isOk := by
    decide +kernel
  have hlast : (((create 20 10).after [.evaluate "3^37" (.text "rad")]).apply
      .expand).state.lastValue = some (ofInt (3 ^ 37)) := by decide +kernel
  have hfits : ¬FitsIn Precise.inspectionBits (3 ^ 37) :=
    mt (floorRounded_ofInt_eq_iff (by decide) _).mpr (by decide +kernel)
  obtain ⟨text, hreply, hfull, hread⟩ :=
    integer_in_full_iff_fits 20 10 [.evaluate "3^37" (.text "rad")] .expand hok hlast
      (denotes_ofInt _) (by decide)
  exact ⟨hok, hlast, hfits, text, hreply, mt hfull.mp hfits, hread hfits⟩

/-- The least natural number that does not fit in 53 bits is the value of its own digits, but not
what they are answered with. -/
theorem integer_not_in_full :
    let outcome := (create 20 10).evaluate "9007199254740993" (.text "deg")
    ∃ x : BigFloat, outcome.state.lastValue = some x ∧ x.Denotes (9007199254740993 : ℤ) ∧
      outcome.reply = .ok (.text "9.007199254740993e+15") := by
  intro outcome
  have hlast : outcome.state.lastValue = some (ofInt 9007199254740993) := by decide +kernel
  exact ⟨_, hlast, denotes_ofInt _, by decide +kernel⟩

end PreciseCalculator

end SciCalc
