import SciCalc.Proofs.Formula.StackHeight
import SciCalc.Proofs.Precise.Calls

/-! # Rejected formulas

Both arithmetics get the same tokens in postfix order, so up to there a formula is rejected alike.
What happens then differs only by the errors of the operations: a list that is not well-formed has
no value in either arithmetic, and one that is well-formed fails for no other reason.
-/

namespace SciCalc

/-- The call reports an error of one of the given kinds. -/
def Rejects {α : Type} (kinds : List ErrorKind) (call : Except Fault α) : Prop :=
  ∃ error, call = .error (.calculation error) ∧ error.kind ∈ kinds

theorem Rejects.map {α β : Type} {kinds : List ErrorKind} {call : Except Fault α}
    (hrejects : Rejects kinds call) (change : α → β) : Rejects kinds (change <$> call) := by
  obtain ⟨error, rfl, hkind⟩ := hrejects
  exact ⟨error, rfl, hkind⟩

theorem Rejects.bind {α β : Type} {kinds : List ErrorKind} {call : Except Fault α}
    (hrejects : Rejects kinds call) (next : α → Except Fault β) : Rejects kinds (call >>= next) := by
  obtain ⟨error, rfl, hkind⟩ := hrejects
  exact ⟨error, rfl, hkind⟩

namespace Formula

open Token

/-- The mode, and the tokens in postfix order, from which a formula is evaluated. -/
def prepare (mode : Datum) (formula : String) : Except Fault (AngleMode × List Token) := do
  let mode ← AngleMode.ofDatum mode
  let tokens ← tokenize formula
  let ordered ← toPostfix tokens
  return (mode, ordered)

theorem failsAsCalculation_ofDatum (mode : Datum) :
    FailsAsCalculation (AngleMode.ofDatum mode) := by
  unfold AngleMode.ofDatum
  split
  · split
    · exact .ok _
    · exact .fail _
  · exact .fail _

theorem failsAsCalculation_prepare (mode : Datum) (formula : String) :
    FailsAsCalculation (prepare mode formula) := by
  refine (failsAsCalculation_ofDatum mode).bind fun angleMode _ => ?_
  refine (failsAsCalculation_tokenize formula).bind fun tokens _ => ?_
  exact (failsAsCalculation_postfixFrom [] tokens).bind fun ordered _ => .ok _

/-- What is evaluated are tokens that pieces of the formula have become, without parentheses. -/
theorem arises_of_prepare {mode : Datum} {formula : String} {angleMode : AngleMode}
    {ordered : List Token} (hprepare : prepare mode formula = .ok (angleMode, ordered)) :
    (∀ token ∈ ordered, token.Arises) ∧ ∀ token ∈ ordered, token.isParen = false := by
  obtain ⟨_, -, hrest⟩ := bind_eq_ok_iff.mp hprepare
  obtain ⟨tokens, htokens, hrest⟩ := bind_eq_ok_iff.mp hrest
  obtain ⟨_, hordered, hpair⟩ := bind_eq_ok_iff.mp hrest
  obtain ⟨-, rfl⟩ := Prod.mk.inj (Except.ok.inj hpair)
  exact ⟨forall_mem_toPostfix .paren (placed_of_tokenize htokens).1 hordered,
    isParen_of_mem_postfixFrom (List.forall_mem_nil _) hordered⟩

variable {α : Type} (arithmetic : Arithmetic α)

theorem evaluateIn_eq (mode : Datum) (formula : String) :
    evaluateIn arithmetic mode formula =
      prepare mode formula >>= fun prepared =>
        evaluatePostfix arithmetic prepared.1 prepared.2 := by
  simp only [evaluateIn, evaluate, prepare, bind_assoc, pure_bind]

variable {arithmetic}

/-- An arithmetic has no value for tokens that are not well-formed, and rejects others only by the
errors of its operations. -/
theorem rejects_of_prepare (hreads : arithmetic.ReadsNumerals)
    (hblames : arithmetic.BlamesOperations) {mode : Datum} {formula : String}
    {angleMode : AngleMode} {ordered : List Token}
    (hprepare : prepare mode formula = .ok (angleMode, ordered)) :
    (¬ WellFormed ordered →
      Rejects (.invalidExpression :: operationKinds) (evaluateIn arithmetic mode formula)) ∧
    (WellFormed ordered →
      (∃ value, evaluateIn arithmetic mode formula = .ok value) ∨
        Rejects operationKinds (evaluateIn arithmetic mode formula)) := by
  obtain ⟨harise, hparen⟩ := arises_of_prepare hprepare
  rw [evaluateIn_eq, hprepare, bind_ok]
  rcases evaluatePostfix_cases hreads angleMode harise hparen with
    ⟨value, hvalue, hwellFormed⟩ | ⟨error, herror, hraises⟩ | ⟨hlacking, hillFormed⟩
  · exact ⟨fun hillFormed => absurd hwellFormed hillFormed, fun _ => .inl ⟨value, hvalue⟩⟩
  · have hkind := hraises.kind_mem hblames
    exact ⟨fun _ => ⟨error, herror, List.mem_cons_of_mem _ hkind⟩,
      fun _ => .inr ⟨error, herror, hkind⟩⟩
  · exact ⟨fun _ => ⟨_, hlacking, List.mem_cons_self⟩,
      fun hwellFormed => absurd hwellFormed hillFormed⟩

/-- Both calculators reject a formula alike until it is in postfix order. Neither has a value for
tokens that are not well-formed there, and for tokens that are, each has one or reports the error
of an operation. -/
theorem rejected_alike (calculator : PreciseCalculator) (mode : Datum) (formula : String) :
    (∀ fault, prepare mode formula = .error fault →
      (∃ error, fault = .calculation error) ∧
        evaluateIn Standard.arithmetic mode formula = .error fault ∧
        (calculator.evaluate formula mode).reply = .error fault) ∧
    ∀ angleMode ordered, prepare mode formula = .ok (angleMode, ordered) →
      (¬ WellFormed ordered →
        Rejects (.invalidExpression :: operationKinds)
            (evaluateIn Standard.arithmetic mode formula) ∧
          Rejects (.invalidExpression :: operationKinds)
            (calculator.evaluate formula mode).reply) ∧
      (WellFormed ordered →
        ((∃ value, evaluateIn Standard.arithmetic mode formula = .ok value) ∨
            Rejects operationKinds (evaluateIn Standard.arithmetic mode formula)) ∧
          ((∃ text, (calculator.evaluate formula mode).reply = .ok (.text text)) ∨
            Rejects operationKinds (calculator.evaluate formula mode).reply)) := by
  rw [PreciseCalculator.evaluate_reply]
  refine ⟨fun fault hfault => ?_, fun angleMode ordered hprepare => ?_⟩
  · rw [evaluateIn_eq, evaluateIn_eq, hfault]
    exact ⟨failsAsCalculation_prepare mode formula fault hfault, rfl, rfl⟩
  · obtain ⟨hstandard, hstandard'⟩ :=
      rejects_of_prepare Standard.readsNumerals Standard.blamesOperations hprepare
    obtain ⟨hprecise, hprecise'⟩ := rejects_of_prepare (Precise.readsNumerals _)
      (Precise.blamesOperations (PreciseCalculator.places calculator.initialDigits)) hprepare
    refine ⟨fun hillFormed => ⟨hstandard hillFormed, (hprecise hillFormed).map _⟩,
      fun hwellFormed => ⟨hstandard' hwellFormed, ?_⟩⟩
    rcases hprecise' hwellFormed with ⟨value, hvalue⟩ | hrejects
    · exact .inl ⟨_, by rw [hvalue]; rfl⟩
    · exact .inr (hrejects.map _)

/-- A mode that does not exist is rejected before the parenthesis is looked at; numbers side by side
are not well-formed; and a divisor that is zero only when rounded is a matter of the digits. -/
theorem rejected_alike_before_and_behind_postfix_order :
    (∃ fault, prepare (.text "grad") "2)" = .error fault ∧
      evaluateIn Standard.arithmetic (.text "grad") "2)" = .error fault ∧
      ((PreciseCalculator.create 20 10).evaluate "2)" (.text "grad")).reply = .error fault) ∧
    (∃ angleMode ordered, prepare (.text "rad") "2 3" = .ok (angleMode, ordered) ∧
      ¬ WellFormed ordered ∧
      Rejects (.invalidExpression :: operationKinds)
        (evaluateIn Standard.arithmetic (.text "rad") "2 3") ∧
      Rejects (.invalidExpression :: operationKinds)
        ((PreciseCalculator.create 20 10).evaluate "2 3" (.text "rad")).reply) ∧
    ∃ angleMode ordered, prepare (.text "deg") "1/(1/43*43-1)" = .ok (angleMode, ordered) ∧
      WellFormed ordered ∧
      ((∃ text, ((PreciseCalculator.create 30 10).evaluate "1/(1/43*43-1)" (.text "deg")).reply =
          .ok (.text text)) ∨
        Rejects operationKinds
          ((PreciseCalculator.create 30 10).evaluate "1/(1/43*43-1)" (.text "deg")).reply) := by
  have hgrad : prepare (.text "grad") "2)" =
      .error (.calculation (.ofKind .invalidAngleMode)) := by decide +kernel
  have hnumbers : prepare (.text "rad") "2 3" =
      .ok (.radians, [(Literal.ofNat 2).token, (Literal.ofNat 3).token]) := by decide +kernel
  obtain ⟨angleMode, ordered, hquotient, hwellFormed⟩ : ∃ angleMode ordered,
      prepare (.text "deg") "1/(1/43*43-1)" = .ok (angleMode, ordered) ∧ WellFormed ordered :=
    ⟨.degrees, [(Literal.ofNat 1).token, (Literal.ofNat 1).token, (Literal.ofNat 43).token,
      OperatorSign.slash.token, (Literal.ofNat 43).token, OperatorSign.asterisk.token,
      (Literal.ofNat 1).token, OperatorSign.minus.token, OperatorSign.slash.token],
      by decide +kernel, by decide +kernel⟩
  refine ⟨⟨_, hgrad, ((rejected_alike _ _ _).1 _ hgrad).2⟩, ⟨_, _, hnumbers, by decide, ?_⟩,
    angleMode, ordered, hquotient, hwellFormed, ?_⟩
  · exact ((rejected_alike _ _ _).2 _ _ hnumbers).1 (by decide)
  · exact (((rejected_alike _ _ _).2 _ _ hquotient).2 hwellFormed).2

end Formula

end SciCalc
