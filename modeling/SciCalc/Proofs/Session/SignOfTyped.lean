import SciCalc.Proofs.Display.ReadBack
import SciCalc.Proofs.Session.Strokes

/-! # The sign of a typed number

A change of sign does not edit the text of a typed number: the number is read, and its opposite is
displayed. So what was typed is replaced by what the display has room for. Ten digits are kept, and
with them every number that was typed with no more; of the others the value changes with the sign.
-/

namespace SciCalc.Session

open Display

variable {session : Session} {x : Double}

/-- A text that is read as a number is what is being typed. -/
theorem negate_of_read (hmark : session.justEvaluated = false)
    (hread : Double.ofText? session.state.inputBuffer = some x) :
    session.press .negate = session.negateTyped session.state.inputBuffer := by
  have htyped : session.numberTyped = session.state.inputBuffer := by
    rw [numberTyped, hmark]
    rfl
  have hnone : ∀ text ∈ "" :: unfinished, Double.ofText? text = none := by decide +kernel
  have hfinished : session.state.inputBuffer ∉ "" :: unfinished := fun hmem =>
    Option.some_ne_none x (hread.symm.trans (hnone _ hmem))
  rw [List.mem_cons, not_or, ← htyped] at hfinished
  rw [press, negate_of_typed hfinished.1 hfinished.2, htyped]

section Finite

variable (hmark : session.justEvaluated = false)
  (hread : Double.ofText? session.state.inputBuffer = some x) (hfinite : x.isFinite = true)

include hmark hread hfinite

theorem negate_of_zero (hzero : x.toRat = 0) :
    session.press .negate = .answer (.text session.state.inputBuffer) session := by
  simp only [negate_of_read hmark hread, negateTyped, hread,
    if_pos ((Double.isZero_iff hfinite).mpr hzero)]

/-- The number is replaced by the display text of its opposite. -/
theorem exists_negate_of_ne_zero (hzero : x.toRat ≠ 0) :
    ∃ text,
      session.press .negate = .answer (.text text)
        { session with state := { session.state with inputBuffer := text, error := none } } ∧
      ∀ negativeZero, Double.ofText? text = some (Double.ofRat negativeZero (-displayed x)) := by
  obtain ⟨text, htext⟩ := exists_formatDouble x.neg
  have hnonzero : ¬x.isZero = true := fun hnone => hzero ((Double.isZero_iff hfinite).mp hnone)
  refine ⟨text, ?_, fun negativeZero => ?_⟩
  · simp only [negate_of_read hmark hread, negateTyped, hread, if_neg hnonzero, htext]
    rfl
  · rw [ofText?_formatDouble (by rwa [Double.isFinite_neg])
      (by rw [Double.toRat_neg]; exact neg_ne_zero.mpr hzero) negativeZero htext, displayed_neg]

theorem ofText?_negate_iff (hzero : x.toRat ≠ 0) :
    Double.ofText? (session.press .negate).state.state.inputBuffer = some x.neg ↔
      Double.ofRat false (displayed x) = x := by
  obtain ⟨text, hnegate, htext⟩ := exists_negate_of_ne_zero hmark hread hfinite hzero
  rw [hnegate]
  change Double.ofText? text = _ ↔ _
  rw [htext true, ← Bool.not_false, ← Double.neg_ofRat, Option.some_inj, Double.neg_inj]

/-- A second change of sign undoes one that was exact. -/
theorem ofText?_negate_negate (hzero : x.toRat ≠ 0)
    (hexact : Double.ofText? (session.press .negate).state.state.inputBuffer = some x.neg) :
    Double.ofText? (session.after [.negate, .negate]).state.inputBuffer = some x := by
  obtain ⟨text, hnegate, -⟩ := exists_negate_of_ne_zero hmark hread hfinite hzero
  have hstill : (session.press .negate).state.justEvaluated = false := by
    rw [hnegate]
    exact hmark
  obtain ⟨again, hagain, hback⟩ := exists_negate_of_ne_zero hstill hexact
    (by rwa [Double.isFinite_neg]) (by rw [Double.toRat_neg]; exact neg_ne_zero.mpr hzero)
  rw [after, after, after, hagain]
  change Double.ofText? again = some x
  rw [hback false, displayed_neg, neg_neg,
    (ofText?_negate_iff hmark hread hfinite hzero).mp hexact]

end Finite

/-- A change of sign takes a typed number to the opposite of what is displayed of it, and touches
nothing else but the error. It is exact, and undone by a second one, if the number is the double that
its display text is read as; so it is for numbers that are typed with ten digits, of which no more than
nine are decimals where the display has no power of ten and the number is below one. -/
theorem negate_keeps_displayed_digits (hmark : session.justEvaluated = false)
    (hread : Double.ofText? session.state.inputBuffer = some x) (hfinite : x.isFinite = true) :
    (x.toRat = 0 → session.press .negate = .answer (.text session.state.inputBuffer) session) ∧
    (x.toRat ≠ 0 → ∃ text,
      session.press .negate = .answer (.text text)
        { session with state := { session.state with inputBuffer := text, error := none } } ∧
      Double.ofText? text = some (Double.ofRat false (displayed x)).neg ∧
      (Double.ofText? text = some x.neg ↔ Double.ofRat false (displayed x) = x) ∧
      (Double.ofText? text = some x.neg →
        Double.ofText? (session.after [.negate, .negate]).state.inputBuffer = some x)) ∧
    ∀ d, Numeral.ofText? session.state.inputBuffer = some (.decimal d) →
      (10 : ℚ) ^ (-313 : ℤ) ≤ |d.toRat| → significant 10 d.toRat = d.toRat →
        (NeedsPower x ∨ 1 ≤ |d.toRat| ∨ ∃ n : ℕ, |d.toRat| * 10 ^ 9 = n) →
          Double.ofText? (session.press .negate).state.state.inputBuffer = some x.neg := by
  refine ⟨negate_of_zero hmark hread hfinite, fun hzero => ?_,
    fun d hd hlarge hdigits hplaces => ?_⟩
  · obtain ⟨text, hnegate, htext⟩ := exists_negate_of_ne_zero hmark hread hfinite hzero
    have hexact := ofText?_negate_iff hmark hread hfinite hzero
    have htwice := ofText?_negate_negate hmark hread hfinite hzero
    rw [hnegate] at hexact htwice
    exact ⟨text, hnegate, by rw [Double.neg_ofRat, htext], hexact, htwice⟩
  · obtain rfl : d.toDouble = x := by
      rw [Double.ofText?, hd] at hread
      exact Option.some.inj hread
    exact (ofText?_negate_iff hmark hread hfinite
      (toRat_toDouble_ne_zero hfinite hlarge hdigits)).mpr
        (ofRat_displayed_toDouble hfinite hlarge hdigits hplaces)

/-- In the formula `3*0.000125` the sign of the second factor is changed. -/
theorem negate_keeps_displayed_digits_of_factor :
    Double.ofText? (initial.after [.append "3*", .enter "0.000125", .negate]).state.inputBuffer =
        some (.ofFraction true 125 1000000) ∧
      Double.ofText? (initial.after
        [.append "3*", .enter "0.000125", .negate, .negate]).state.inputBuffer =
        some (.ofFraction false 125 1000000) := by
  have hread : Double.ofText?
      (initial.after [.append "3*", .enter "0.000125"]).state.inputBuffer =
        some (.ofFraction false 125 1000000) := by decide +kernel
  obtain ⟨-, hnonzero, hexact⟩ :=
    negate_keeps_displayed_digits (by decide +kernel) hread (by decide +kernel)
  have hsame := hexact ⟨false, 125, -6⟩ (by decide +kernel) (by decide +kernel) (by decide +kernel)
    (.inr (.inr ⟨125000, by decide +kernel⟩))
  obtain ⟨text, hnegate, -, -, htwice⟩ := hnonzero (by decide +kernel)
  refine ⟨?_, htwice (by rwa [hnegate] at hsame)⟩
  rw [Double.neg_ofFraction] at hsame
  exact hsame

/-- Of eleven digits the last one is lost, with the first change of sign and for good. -/
theorem negate_loses_eleventh_digit :
    (initial.after [.enter "12345678901"]).justEvaluated = false ∧
      Double.ofText? (initial.after [.enter "12345678901"]).state.inputBuffer =
        some (.ofNat 12345678901) ∧
      Double.ofText? (initial.after [.enter "12345678901", .negate]).state.inputBuffer =
        some (.ofInt (-12345678900)) ∧
      Double.ofText? (initial.after [.enter "12345678901", .negate]).state.inputBuffer ≠
        some (Double.ofNat 12345678901).neg ∧
      Double.ofText? (initial.after [.enter "12345678901", .negate, .negate]).state.inputBuffer ≠
        some (.ofNat 12345678901) :=
  ⟨by decide +kernel, by decide +kernel, by decide +kernel, by decide +kernel, by decide +kernel⟩

end SciCalc.Session
