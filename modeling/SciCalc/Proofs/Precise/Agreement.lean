import SciCalc.Proofs.Display.WholeNumbers
import SciCalc.Proofs.Formula.Meaning
import SciCalc.Proofs.Formula.WholeNumbers
import SciCalc.Proofs.Precise.Calls
import SciCalc.Proofs.Session.Steps

/-! # The two calculators agree on whole numbers

A session and a precise calculator evaluate a formula in different arithmetics and display its value
in different ways. Where the formula denotes an integer of at most ten digits they answer alike:
both arithmetics find the integer, and both displays write it in its decimal digits, zero of either
sign included. So the precise calculator has nothing to add, however often it is asked for more
digits.
-/

namespace SciCalc

open Formula

variable {formula : String} {tokens : List Token} {tree : Formula.Tree Literal}
  {n : Int} (htokens : Token.tokenize formula = .ok tokens)
  (hderives : Derives .expression tokens tree) (hdenotes : tree.DenotesInteger n)
  (hresult : n.natAbs < 10 ^ 10)

include htokens hderives hdenotes hresult

/-- A session displays the integer, provided that the decimal logarithm of it is known well enough
to name the place of the first digit. -/
theorem Session.evaluate_whole
    (hlog : n ≠ 0 → Display.magnitude (Double.ofInt n) = .ok (Nat.log 10 n.natAbs))
    (session : Session) :
    (session.evaluate (some formula)).reply = .ok (.text (toString n)) := by
  obtain ⟨x, hvalue, hx⟩ :=
    hdenotes.exists_value Standard.computesWhole session.state.angleMode
  have hmagnitude : n ≠ 0 → Display.magnitude x = .ok (Nat.log 10 n.natAbs) := by
    intro hn
    rw [Double.eq_ofInt_of_toInt? hx hn]
    exact hlog hn
  rw [session.evaluate_reply, evaluateValue,
    evaluate_of_derives Standard.arithmetic session.state.angleMode htokens hderives, hvalue,
    bind_ok, Display.formatDouble_of_toInt? hx hresult hmagnitude]
  rfl

/-- The precise display shows the integer with any number of digits. -/
theorem PreciseCalculator.shownAlways_whole (mode : AngleMode) :
    ShownAlways formula mode (toString n) := by
  intro digits
  have hplaces : 40 ≤ places digits := le_max_left 40 _
  obtain ⟨x, hvalue, rfl⟩ := hdenotes.exists_value (Precise.computesWhole hplaces) mode
  have hfits := BigFloat.fitsIn_of_natAbs_lt
    (hresult.trans (show 10 ^ 10 < 2 ^ Precise.inspectionBits by decide))
  refine ⟨BigFloat.ofInt n, ?_, Precise.format_ofInt hfits (hresult.trans (by decide)) digits⟩
  rw [value, evaluate_of_derives (Precise.arithmetic (places digits)) mode htokens hderives, hvalue]

/-- Sessions in either angle mode and precise calculators with any digits answer a formula of whole
numbers with the integer that it denotes, and so does every request for more digits. -/
theorem calculators_agree_on_integers
    (hlog : n ≠ 0 → Display.magnitude (Double.ofInt n) = .ok (Nat.log 10 n.natAbs)) :
    (∀ session : Session,
      (session.evaluate (some formula)).reply = .ok (.text (toString n))) ∧
      ∀ (calculator : PreciseCalculator) (mode : AngleMode) (count : Nat),
        ∀ outcome ∈ calculator.outcomes
          (.evaluate formula (.text mode.name) :: List.replicate count .expand),
          outcome.reply = .ok (.text (toString n)) :=
  ⟨Session.evaluate_whole htokens hderives hdenotes hresult hlog, fun calculator mode count =>
    (PreciseCalculator.shownAlways_whole htokens hderives hdenotes hresult
      mode).reply_evaluate_expansions calculator count⟩

omit htokens hderives hdenotes hresult in
/-- Both calculators answer `2(3-10)*-4` with 56: the multiplication behind the 2 is understood, and
the minus before the 4 is a sign. -/
theorem calculators_agree_on_fifty_six :
    (∃ tokens tree, Token.tokenize "2(3-10)*-4" = .ok tokens ∧
      Derives .expression tokens tree ∧ tree.DenotesInteger 56 ∧
      Display.magnitude (Double.ofInt 56) = .ok (Nat.log 10 56)) ∧
      (∀ session : Session,
        (session.evaluate (some "2(3-10)*-4")).reply = .ok (.text (toString (56 : Int)))) ∧
      ∀ (calculator : PreciseCalculator) (mode : AngleMode) (count : Nat),
        ∀ outcome ∈ calculator.outcomes
          (.evaluate "2(3-10)*-4" (.text mode.name) :: List.replicate count .expand),
          outcome.reply = .ok (.text (toString (56 : Int))) := by
  have htokens : Token.tokenize "2(3-10)*-4" = .ok [(Literal.ofNat 2).token,
      OperatorSign.times.token, .paren true, (Literal.ofNat 3).token, OperatorSign.minus.token,
      (Literal.ofNat 10).token, .paren false, OperatorSign.asterisk.token,
      Literal.token ⟨Double.ofInt (-4), some "-4"⟩] := by decide +kernel
  have hdifference := Derives.binary .minus
    (.loosen (.loosen (.loosen (.number (.ofNat 3))))) (.loosen (.loosen (.number (.ofNat 10))))
  have hproduct := Derives.binary .times (.loosen (.loosen (.number (.ofNat 2))))
    (.loosen hdifference.parens)
  have hderives := Derives.loosen (Derives.binary .asterisk hproduct
    (.loosen (.number ⟨Double.ofInt (-4), some "-4"⟩)))
  have htwo : (Formula.Tree.leaf (.ofNat 2)).DenotesInteger 2 :=
    Tree.denotesInteger_leaf rfl (by decide)
  have hthree : (Formula.Tree.leaf (.ofNat 3)).DenotesInteger 3 :=
    Tree.denotesInteger_leaf rfl (by decide)
  have hten : (Formula.Tree.leaf (.ofNat 10)).DenotesInteger 10 :=
    Tree.denotesInteger_leaf rfl (by decide)
  have hfour : (Formula.Tree.leaf ⟨Double.ofInt (-4), some "-4"⟩).DenotesInteger (-4) :=
    Tree.denotesInteger_leaf rfl (by decide)
  have hminus : OperatorSign.minus.operation.onIntegers? = some (· - ·) := rfl
  have htimes : OperatorSign.times.operation.onIntegers? = some (· * ·) := rfl
  have hasterisk : OperatorSign.asterisk.operation.onIntegers? = some (· * ·) := rfl
  have hdenotes := Formula.Tree.DenotesInteger.binary hasterisk
    (.binary htimes htwo (.binary hminus hthree hten (by decide)) (by decide)) hfour (by decide)
  have hlog : Display.magnitude (Double.ofInt 56) = .ok (Nat.log 10 56) := by decide +kernel
  exact ⟨⟨_, _, htokens, hderives, hdenotes, hlog⟩,
    calculators_agree_on_integers htokens hderives hdenotes (by decide) fun _ => hlog⟩

end SciCalc
