import SciCalc.Proofs.Display.Written
import SciCalc.Proofs.Session.Results

/-! # Fragments that run on with the result

A fragment is put right behind the text of the result that it continues. The pieces of the formula
are the longest ones, so the number at its start is the result only if the fragment does not go on
with its digits or with a power of ten. The text of a result has a fraction or a power of ten already,
and takes no more than that.
-/

namespace SciCalc

namespace Written

/-- Only a power of ten brings its mark into the text. -/
theorem mark_mem_iff (written : Written) (negative : Bool) :
    'e' ∈ (if negative then ['-'] else []) ++ written.chars ↔ written.power.isSome = true := by
  cases hpower : written.power with
  | none =>
      rw [written.signed_chars_of_none negative hpower]
      refine iff_of_false (fun hmem => ?_) Bool.false_ne_true
      exact absurd (written.ne_mark_of_mem_mantissa negative _ hmem) (by decide)
  | some power =>
      rw [written.signed_chars negative hpower]
      exact iff_of_true (List.mem_append_right _ List.mem_cons_self) rfl

end Written

/-- The text of the number at the start of a formula, if a result stands there with a text behind
it. -/
def Double.runningInto (x : Double) (text : String) : String :=
  x.toText ++ String.ofList (Lexeme.runOn (x.toText.toList.contains 'e') text.toList)

/-- The text goes on with the number in front of it: with a digit, or with a power of ten if the
number has none. -/
def Double.RunsInto (x : Double) (text : String) : Prop :=
  text.toList.head?.any Char.isDigit = true ∨
    'e' ∉ x.toText.toList ∧ (Lexeme.splitPower text.toList).1 ≠ []

instance (x : Double) (text : String) : Decidable (x.RunsInto text) :=
  inferInstanceAs (Decidable (_ ∨ _))

theorem Double.runningInto_eq_iff {x : Double} {text : String} :
    x.runningInto text = x.toText ↔ ¬x.RunsInto text := by
  have hnone : x.runningInto text = x.toText ↔
      Lexeme.runOn (x.toText.toList.contains 'e') text.toList = [] := by
    rw [runningInto, ← String.toList_inj, String.toList_append, String.toList_ofList,
      List.append_right_eq_self]
  rw [hnone, Lexeme.runOn_eq_nil_iff, RunsInto, not_or, Bool.not_eq_true, Option.any_eq_false]
  simp [imp_iff_not_or]

namespace Token

/-- A formula that begins with the text of a finite double begins with a number. -/
theorem exists_number_of_tokenize {x : Double} (hfinite : x.isFinite = true) {text : String}
    {tokens : List Token} (htokens : tokenize (x.toText ++ text) = .ok tokens) :
    ∃ first rest, tokens = number first (some (x.runningInto text)) :: rest ∧
      Double.ofText? (x.runningInto text) = some first := by
  obtain ⟨-, -, hlexemes⟩ := tokenize_eq_ok_iff.mp htokens
  obtain ⟨written, htext, -, hmark⟩ := Double.exists_written hfinite
  have hnumeral : x.runningInto text = String.ofList ((if x.isNegative then ['-'] else []) ++
      (Lexeme.splitNumeral (written.chars ++ text.toList)).1) := by
    have hpower : x.toText.toList.contains 'e' = written.power.isSome := by
      rw [Bool.eq_iff_iff, List.contains_iff_mem, htext, String.toList_ofList,
        written.mark_mem_iff]
    rw [Double.runningInto, hpower, Lexeme.splitNumeral_written_runOn hmark, htext,
      ← String.ofList_append, List.append_assoc]
  rw [String.toList_append, htext, String.toList_ofList,
    ofLexemes_scan_signed written x.isNegative expectsOperand_none, ← hnumeral] at hlexemes
  obtain ⟨token, htoken, hrest⟩ := bind_eq_ok_iff.mp hlexemes
  obtain ⟨first, hfirst, rfl⟩ := exists_of_ofNumeral htoken
  obtain ⟨rest, -, rfl⟩ := map_eq_ok_iff.mp hrest
  exact ⟨first, rest, rfl, hfirst⟩

end Token

namespace Session

variable {session : Session} {given : Option String} {value : Double}

/-- The formula that continues a result begins with a number. It is read from the text of the result
and what the fragment adds to it, and is the result unless the fragment runs on with it. -/
theorem append_keeps_result_unless_running_on (hyields : session.Yields given value)
    {fragment : String}
    (haccepted : (session.press (.evaluate given)).state.accepts (.append fragment) = true)
    {tokens : List Token}
    (htokens : Token.tokenize
      ((session.press (.evaluate given)).state.press (.append fragment)).state.state.expression =
        .ok tokens) :
    ∃ first rest, tokens = .number first (some (value.runningInto fragment)) :: rest ∧
      Double.ofText? (value.runningInto fragment) = some first ∧
      (value.runningInto fragment = value.toText ↔ ¬value.RunsInto fragment) ∧
      (¬value.RunsInto fragment → first = value) := by
  obtain ⟨-, hshows⟩ := hyields.shows
  obtain ⟨depth, hcontinued⟩ := append_of_accepted haccepted
  rw [hcontinued, hshows.continued_eq] at htokens
  obtain ⟨first, rest, hnumber, hfirst⟩ :=
    Token.exists_number_of_tokenize hyields.finite htokens
  refine ⟨first, rest, hnumber, hfirst, Double.runningInto_eq_iff, fun hends => ?_⟩
  rw [Double.runningInto_eq_iff.mpr hends, Double.ofText?_toText hyields.finite] at hfirst
  exact (Option.some.inj hfirst).symm

/-- A blank in front of the digit keeps it apart from the result. -/
theorem append_keeps_result_unless_running_on_blank :
    initial.Yields (some "2+2") (.ofNat 4) ∧
      ∃ rest, Token.tokenize
        (initial.after [.evaluate (some "2+2"), .append " 5"]).state.expression =
          .ok (.number (.ofNat 4) (some "4.0") :: rest) := by
  have hyields : initial.Yields (some "2+2") (.ofNat 4) :=
    ⟨by decide +kernel, by decide +kernel, by decide +kernel⟩
  have haccepted :
      (initial.press (.evaluate (some "2+2"))).state.accepts (.append " 5") = true := by
    decide +kernel
  have htokens : Token.tokenize
      (initial.after [.evaluate (some "2+2"), .append " 5"]).state.expression =
        .ok [.number (.ofNat 4) (some "4.0"), .number (.ofNat 5) (some "5")] := by decide +kernel
  obtain ⟨first, rest, hnumber, -, htext, hsame⟩ :=
    append_keeps_result_unless_running_on hyields haccepted htokens
  have hends : ¬(Double.ofNat 4).RunsInto " 5" := by decide +kernel
  obtain rfl := hsame hends
  have hshown : (Double.ofNat 4).toText = "4.0" := by decide +kernel
  exact ⟨hyields, rest, by rw [htokens, hnumber, htext.mpr hends, hshown]⟩

/-- A digit goes behind the last digit of the result. -/
theorem append_digit_changes_result :
    initial.Yields (some "2+2") (.ofNat 4) ∧
      (initial.press (.evaluate (some "2+2"))).state.accepts (.append "5") = true ∧
      Token.tokenize (initial.after [.evaluate (some "2+2"), .append "5"]).state.expression =
        .ok [.number (.ofFraction false 405 100) (some "4.05")] ∧
      Double.ofFraction false 405 100 ≠ .ofNat 4 :=
  ⟨⟨by decide +kernel, by decide +kernel, by decide +kernel⟩, by decide +kernel,
    by decide +kernel, by decide +kernel⟩

end Session

end SciCalc
