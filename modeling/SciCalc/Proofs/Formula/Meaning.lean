import SciCalc.Proofs.Formula.ShuntingYard
import SciCalc.Proofs.Formula.StackMachine
import SciCalc.Standard.Arithmetic

/-! # The meaning of a formula

A formula whose tokens derive from the infix grammar means the tree of the derivation: its
postfix order is the post-order of the tree, and its value is the value of the tree.
-/

namespace SciCalc.Formula

variable {α : Type} (arithmetic : Arithmetic α)

@[simp] theorem ofDatum_text_name (mode : AngleMode) :
    AngleMode.ofDatum (.text mode.name) = .ok mode := by
  cases mode <;> rfl

@[simp] theorem evaluateIn_text_name (mode : AngleMode) (formula : String) :
    evaluateIn arithmetic (.text mode.name) formula = evaluate arithmetic mode formula := by
  simp [evaluateIn]

theorem evaluate_of_tokenize {formula : String} {tokens : List Token} (mode : AngleMode)
    (htokens : Token.tokenize formula = .ok tokens) :
    evaluate arithmetic mode formula =
      Token.toPostfix tokens >>= evaluatePostfix arithmetic mode := by
  simp [evaluate, htokens]

theorem evaluate_of_derives {formula : String} {tokens : List Token} {tree : Tree Literal}
    (mode : AngleMode) (htokens : Token.tokenize formula = .ok tokens)
    (hderives : Derives .expression tokens tree) :
    evaluate arithmetic mode formula = tree.value arithmetic mode (Literal.read arithmetic) := by
  rw [evaluate_of_tokenize arithmetic mode htokens, hderives.toPostfix_eq, bind_ok,
    evaluatePostfix_postorder]

/-- A derivation of the tokens of a formula says what the formula means, in every arithmetic and
in both angle modes. -/
theorem meaning_of_derivation {formula : String} {tokens : List Token} {tree : Tree Literal}
    (htokens : Token.tokenize formula = .ok tokens)
    (hderives : Derives .expression tokens tree) :
    Token.toPostfix tokens = .ok tree.postorder ∧
      ∀ mode : AngleMode, evaluateIn arithmetic (.text mode.name) formula =
        tree.value arithmetic mode (Literal.read arithmetic) := by
  refine ⟨hderives.toPostfix_eq, fun mode => ?_⟩
  rw [evaluateIn_text_name]
  exact evaluate_of_derives arithmetic mode htokens hderives

/-- A function binds more strongly than the power behind it, the understood multiplication less. -/
theorem meaning_of_derivation_root_squared :
    Token.tokenize "2sqrt9^2-1" = .ok [(Literal.ofNat 2).token, OperatorSign.times.token,
        .function UnaryFunction.sqrt.name, (Literal.ofNat 9).token, OperatorSign.caret.token,
        (Literal.ofNat 2).token, OperatorSign.minus.token, (Literal.ofNat 1).token] ∧
      (Token.tokenize "2sqrt9^2-1" >>= Token.toPostfix) = .ok [(Literal.ofNat 2).token,
        (Literal.ofNat 9).token, .function UnaryFunction.sqrt.name, (Literal.ofNat 2).token,
        OperatorSign.caret.token, OperatorSign.times.token, (Literal.ofNat 1).token,
        OperatorSign.minus.token] ∧
      ∀ mode : AngleMode, evaluateIn Standard.arithmetic (.text mode.name) "2sqrt9^2-1" =
        Tree.value Standard.arithmetic mode (Literal.read Standard.arithmetic)
          (.binary .minus
            (.binary .times (.leaf (.ofNat 2))
              (.binary .caret (.apply .sqrt (.leaf (.ofNat 9))) (.leaf (.ofNat 2))))
            (.leaf (.ofNat 1))) := by
  have htokens : Token.tokenize "2sqrt9^2-1" = .ok [(Literal.ofNat 2).token,
      OperatorSign.times.token, .function UnaryFunction.sqrt.name, (Literal.ofNat 9).token,
      OperatorSign.caret.token, (Literal.ofNat 2).token, OperatorSign.minus.token,
      (Literal.ofNat 1).token] := by decide +kernel
  have hpower := Derives.binary .caret (.apply .sqrt (.number (.ofNat 9)))
    (.loosen (.number (.ofNat 2)))
  have hproduct := Derives.binary .times (.loosen (.loosen (.number (.ofNat 2)))) hpower
  have hderives := Derives.binary .minus (.loosen hproduct)
    (.loosen (.loosen (.number (.ofNat 1))))
  obtain ⟨horder, hvalue⟩ := meaning_of_derivation Standard.arithmetic htokens hderives
  exact ⟨htokens, by rw [htokens, bind_ok]; exact horder, hvalue⟩

end SciCalc.Formula
