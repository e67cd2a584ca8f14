import SciCalc.Outcome

/-! # Calls made in turn

A part of the calculator is used by one call after the other, whether the calls are answered or
fail. What every call keeps holds at the end, and the calls that are answered are those that the
part can have learned from.
-/

namespace SciCalc

variable {σ κ : Type} (apply : σ → κ → Outcome σ)

/-- The state after the calls have been made in turn. -/
def afterCalls : σ → List κ → σ
  | state, [] => state
  | state, call :: rest => afterCalls (apply state call).state rest

/-- The calls, made in turn, that are answered and do not fail. -/
def answeredCalls : σ → List κ → List κ
  | _, [] => []
  | state, call :: rest =>
    (if (apply state call).reply.isOk then [call] else []) ++
      answeredCalls (apply state call).state rest

/-- One more call is made in the state after the others. -/
theorem afterCalls_concat (state : σ) (calls : List κ) (call : κ) :
    afterCalls apply state (calls ++ [call]) =
      (apply (afterCalls apply state calls) call).state := by
  induction calls generalizing state with
  | nil => rfl
  | cons first rest ih => exact ih _

theorem answeredCalls_concat (state : σ) (calls : List κ) (call : κ) :
    answeredCalls apply state (calls ++ [call]) =
      answeredCalls apply state calls ++
        if (apply (afterCalls apply state calls) call).reply.isOk then [call] else [] := by
  induction calls generalizing state with
  | nil => exact List.append_nil _
  | cons first rest ih =>
      rw [List.cons_append, answeredCalls, ih, ← List.append_assoc]
      rfl

variable {apply}

/-- What every call keeps holds after all of them. -/
theorem afterCalls_of_invariant (Invariant : σ → Prop)
    (hcall : ∀ state call, Invariant state → Invariant (apply state call).state) {state : σ}
    (hstate : Invariant state) (calls : List κ) : Invariant (afterCalls apply state calls) := by
  induction calls generalizing state with
  | nil => exact hstate
  | cons call rest ih => exact ih (hcall state call hstate)

end SciCalc
