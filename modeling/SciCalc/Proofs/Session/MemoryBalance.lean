import Mathlib.Data.List.DropRight
import SciCalc.Proofs.Calls
import SciCalc.Proofs.Session.Consistency
import SciCalc.Proofs.Session.RealValues

/-! # The balance of the memory

The memory is an account: a stored number or a clearing opens it anew, and every number added since
then is booked, from left to right and each sum rounded. What the memory refuses is not booked, so
the register holds the balance of the calls that it has answered. It refuses what is no finite real
number, and a sum beyond the range.
-/

namespace SciCalc.Memory

/-! ## Accounts -/

namespace Command

/-- What the account is opened with anew. -/
def opening? : Command → Option Double
  | .store value => some value.toDouble
  | .clear => some (.zero false)
  | .add _ | .recall | .hasValue => none

/-- What is booked. -/
def booked? : Command → Option Double
  | .add value => some value.toDouble
  | .store _ | .clear | .recall | .hasValue => none

end Command

/-- The sum, from left to right, of what has been booked since the account was last opened. -/
def balance (calls : List Command) : Double :=
  ((calls.rtakeWhile fun call => call.opening?.isNone).filterMap Command.booked?).foldl Double.add
    ((calls.filterMap Command.opening?).getLast?.getD (.zero false))

/-- Once the account is opened anew, nothing that was booked before counts; what is booked comes
behind it. -/
theorem balance_concat (calls : List Command) (call : Command) :
    balance (calls ++ [call]) =
      call.opening?.getD (call.booked?.toList.foldl Double.add (balance calls)) := by
  cases hopening : call.opening? with
  | none => cases hbooked : call.booked? <;> simp [balance, hopening, hbooked]
  | some x => simp [balance, hopening]

/-! ## What a call does -/

/-- The fault of a call with a value that is no finite real number. -/
def invalidValue : Fault := .calculation (.ofKind .invalidValue)

/-- The fault of an addition beyond the range. -/
def beyondRange : Fault := .calculation (.ofKind .overflow)

/-- The calls that the memory refuses, with their faults. -/
inductive Refuses (memory : Memory) : Command → Fault → Prop where
  | stored {value : Datum} (hreal : ¬value.IsFiniteReal) :
      Refuses memory (.store value) invalidValue
  | added {value : Datum} (hreal : ¬value.IsFiniteReal) :
      Refuses memory (.add value) invalidValue
  | sum {value : Datum} (hreal : value.IsFiniteReal)
      (hsum : (memory.value.add value.toDouble).isFinite = false) :
      Refuses memory (.add value) beyondRange

/-- A call is refused and changes nothing, or it is answered and booked. -/
theorem apply_cases (memory : Memory) (call : Command) :
    (∃ fault records, Refuses memory call fault ∧
        memory.apply call = ⟨.error fault, memory, records⟩) ∨
      (∀ fault, ¬Refuses memory call fault) ∧ ∃ reply records, memory.apply call =
        ⟨.ok reply, ⟨call.opening?.getD (call.booked?.toList.foldl Double.add memory.value)⟩,
          records⟩ := by
  cases call with
  | store value =>
      by_cases hreal : value.IsFiniteReal
      · refine .inr ⟨?_, .nothing, [], ?_⟩
        · rintro fault ⟨hnot⟩
          exact hnot hreal
        · rw [apply, store, State.resultOf?_of_isFiniteReal hreal]
          rfl
      · refine .inl ⟨_, [], .stored hreal, ?_⟩
        rw [apply, store, State.resultOf?_of_not_isFiniteReal hreal]
        rfl
  | add value =>
      by_cases hreal : value.IsFiniteReal
      · cases hsum : (memory.value.add value.toDouble).isFinite with
        | true =>
            refine .inr ⟨?_, .nothing, [], ?_⟩
            · rintro fault (_ | hnot | ⟨-, hnot⟩)
              · exact hnot hreal
              · exact absurd (hsum.symm.trans hnot) nofun
            · simp only [apply, add, State.resultOf?_of_isFiniteReal hreal, hsum, if_true]
              rfl
        | false =>
            have hadd : memory.apply (.add value) = ⟨.error beyondRange, memory,
                Record.about value fun text =>
                  .warning .memory ("Desbordamiento al sumar " ++ text ++ " a la memoria")⟩ := by
              simp only [apply, add, State.resultOf?_of_isFiniteReal hreal, hsum,
                Bool.false_eq_true, if_false]
              rfl
            exact .inl ⟨_, _, .sum hreal hsum, hadd⟩
      · refine .inl ⟨_, [], .added hreal, ?_⟩
        rw [apply, add, State.resultOf?_of_not_isFiniteReal hreal]
        rfl
  | _ => exact .inr ⟨nofun, _, [], rfl⟩

variable {memory : Memory} {call : Command} {fault : Fault}

/-- A call is refused for one reason. -/
theorem Refuses.fault_unique {other : Fault} (hrefuses : Refuses memory call fault)
    (hother : Refuses memory call other) : fault = other := by
  cases hrefuses with
  | stored => cases hother; rfl
  | added hnot =>
      cases hother with
      | added => rfl
      | sum hreal => exact absurd hreal hnot
  | sum hreal =>
      cases hother with
      | added hnot => exact absurd hreal hnot
      | sum => rfl

/-- A call fails exactly if it is refused, and for the reason for which it is refused. -/
theorem reply_eq_error_iff :
    (memory.apply call).reply = .error fault ↔ Refuses memory call fault := by
  rcases memory.apply_cases call with ⟨other, records, hrefuses, happly⟩ | ⟨hnone, reply, _, happly⟩
  · rw [happly, Except.error.injEq]
    constructor
    · rintro rfl
      exact hrefuses
    · exact hrefuses.fault_unique
  · rw [happly]
    exact iff_of_false nofun (hnone fault)

theorem state_of_refuses (hrefuses : Refuses memory call fault) :
    (memory.apply call).state = memory := by
  rcases memory.apply_cases call with ⟨_, records, -, happly⟩ | ⟨hnone, -⟩
  · rw [happly]
  · exact absurd hrefuses (hnone fault)

/-! ## Calls in turn -/

/-- After a call the register holds the balance of the calls that have been answered so far. -/
theorem value_apply {calls : List Command} (hbalance : memory.value = balance calls)
    (call : Command) :
    (memory.apply call).state.value =
      balance (calls ++ if (memory.apply call).reply.isOk then [call] else []) := by
  rcases memory.apply_cases call with ⟨_, records, -, happly⟩ | ⟨-, reply, records, happly⟩
  · rw [happly]
    exact hbalance.trans (congrArg balance (List.append_nil calls).symm)
  · rw [happly, hbalance]
    exact (balance_concat calls call).symm

theorem value_afterCalls (calls : List Command) :
    (afterCalls apply empty calls).value = balance (answeredCalls apply empty calls) := by
  induction calls using List.reverseRecOn with
  | nil => rfl
  | append_singleton calls call ih =>
      rw [afterCalls_concat, answeredCalls_concat]
      exact value_apply ih call

theorem isFinite_apply (hfinite : memory.value.isFinite = true) (call : Command) :
    (memory.apply call).state.value.isFinite = true := by
  cases call with
  | store value => exact isFinite_store hfinite value
  | add value => exact isFinite_add hfinite value
  | clear => rfl
  | _ => exact hfinite

theorem isFinite_afterCalls (calls : List Command) :
    (afterCalls apply empty calls).value.isFinite = true := by
  refine afterCalls_of_invariant (fun memory : Memory => memory.value.isFinite = true) ?_ rfl calls
  exact fun _ call hfinite => isFinite_apply hfinite call

theorem hasValue_eq (hfinite : memory.value.isFinite = true) :
    memory.hasValue = decide (memory.value.toRat ≠ 0) := by
  rw [hasValue, Bool.eq_iff_iff, Bool.not_eq_true', ← Bool.not_eq_true, Double.isZero_iff hfinite,
    decide_eq_true_iff]

/-- Whatever calls have been made, the register holds a finite double: the sum, from left to right,
of the numbers that it has taken since it was last stored to or cleared. The next call fails exactly
if it is refused, and then it changes nothing; and the register tells what it holds, and whether
that is anything but zero. -/
theorem holds_balance_of_answered (calls : List Command) :
    let memory := afterCalls apply empty calls
    memory.value.isFinite = true ∧
      memory.value = balance (answeredCalls apply empty calls) ∧
      (∀ call fault, (memory.apply call).reply = .error fault ↔ Refuses memory call fault) ∧
      (∀ call fault, Refuses memory call fault → (memory.apply call).state = memory) ∧
      (memory.apply .recall).reply = .ok (.float memory.value) ∧
      (memory.apply .hasValue).reply = .ok (.truth (decide (memory.value.toRat ≠ 0))) := by
  intro memory
  have hfinite : memory.value.isFinite = true := isFinite_afterCalls calls
  refine ⟨hfinite, value_afterCalls calls, ?_, ?_, rfl, ?_⟩
  · exact fun _ _ => reply_eq_error_iff
  · exact fun _ _ => state_of_refuses
  · rw [← hasValue_eq hfinite]
    rfl

/-- Neither a truth value nor an integer beyond the range is booked. -/
example : (afterCalls apply empty [.store (.number (.int 3)), .add (.truth true),
    .add (.number (.int (10 ^ 400))), .add (.number (.int 4))]).value = .ofInt 7 := by
  decide +kernel

end SciCalc.Memory
