import SciCalc.Proofs.Formula.Rejection
import SciCalc.Proofs.Text.Unbroken

/-! # Messages keep to one line

A message may quote the formula, but only a numeral, a word or a single character of it, and none of
these has white space in it. The other words of a message are fixed. So the only blank character
that a message can have is the space.
-/

namespace SciCalc

namespace Text

/-- Of the blank characters the text has none but the space. -/
def IsLine (text : String) : Prop := ∀ c ∈ text.toList, isBlank c = true → c = ' '

instance (text : String) : Decidable (IsLine text) := List.decidableBAll _ text.toList

theorem isLine_append {first second : String} :
    IsLine (first ++ second) ↔ IsLine first ∧ IsLine second := by
  simp only [IsLine, String.toList_append, List.forall_mem_append]

theorem IsUnbroken.isLine {text : String} (htext : IsUnbroken text.toList) : IsLine text :=
  fun c hmem hblank => absurd hblank (by simp [htext c hmem])

end Text

open Text

variable {α β : Type}

/-! ## Pieces are unbroken -/

namespace Lexeme

theorem Regular.isUnbroken_chars {piece : Lexeme} (hregular : piece.Regular) :
    IsUnbroken piece.chars := by
  cases hregular with
  | numeral spelled =>
      intro c hmem
      rcases List.mem_cons.mp (spelled.mem_numericChars hmem) with rfl | hnumeric
      · rfl
      · exact isBlank_of_numeric hnumeric
  | operator sign => cases sign <;> decide
  | paren isOpen => cases isOpen <;> decide
  | word hletters halpha => exact fun c hmem => isBlank_of_isAlpha (halpha c hmem)

/-- The pieces that a text can have: those of the lexical grammar, and single characters that are
not blank. -/
inductive Occurs : Lexeme → Prop where
  | regular {piece : Lexeme} (hregular : piece.Regular) : Occurs piece
  | stray {c : Char} (hblank : isBlank c = false) : Occurs (stray c)

theorem Occurs.isUnbroken_chars {piece : Lexeme} (hoccurs : piece.Occurs) :
    IsUnbroken piece.chars := by
  cases hoccurs with
  | regular hregular => exact hregular.isUnbroken_chars
  | stray hblank => exact isUnbroken_cons.mpr ⟨hblank, isUnbroken_nil⟩

theorem Munches.occurs {cs : List Char} {pieces : List Lexeme} (hmunches : Munches cs pieces) :
    ∀ piece ∈ pieces, piece.Occurs := by
  induction hmunches with
  | done => exact nofun
  | blank _ _ ih => exact ih
  | piece hregular _ _ ih => exact List.forall_mem_cons.mpr ⟨.regular hregular, ih⟩
  | stray hblank _ _ ih => exact List.forall_mem_cons.mpr ⟨.stray hblank, ih⟩

end Lexeme

/-! ## Calls that report lines -/

/-- The call has a value, or reports an error of a calculation whose message keeps to one line. -/
def ReportsLines (call : Except Fault α) : Prop :=
  ∀ fault, call = .error fault → ∃ error, fault = .calculation error ∧ IsLine error.message

namespace ReportsLines

theorem ok (value : α) : ReportsLines (.ok value) := nofun

theorem calculation {error : CalcError} (hmessage : IsLine error.message) :
    ReportsLines (.error (.calculation error) : Except Fault α) :=
  fun _ hfault => ⟨error, (Except.error.inj hfault).symm, hmessage⟩

theorem failWith (kind : ErrorKind) {message : String} (hmessage : IsLine message) :
    ReportsLines (SciCalc.failWith kind message : Except Fault α) :=
  calculation hmessage

theorem fail (kind : ErrorKind) : ReportsLines (SciCalc.fail kind : Except Fault α) :=
  calculation (by cases kind <;> decide)

theorem bind {call : Except Fault α} {next : α → Except Fault β} (hcall : ReportsLines call)
    (hnext : ∀ value, call = .ok value → ReportsLines (next value)) :
    ReportsLines (call >>= next) := by
  intro fault hfault
  rcases bind_eq_error_iff.mp hfault with herror | ⟨value, hvalue, herror⟩
  · exact hcall fault herror
  · exact hnext value hvalue fault herror

theorem map {call : Except Fault α} (hcall : ReportsLines call) (change : α → β) :
    ReportsLines (change <$> call) := by
  rw [map_eq_pure_bind]
  exact hcall.bind fun value _ => ok (change value)

end ReportsLines

namespace Token

open Lexeme

theorem reportsLines_ofNumeral {text : List Char} (hoccurs : (numeral text).Occurs)
    (negative : Bool) :
    ReportsLines (ofNumeral (String.ofList ((if negative then ['-'] else []) ++ text))) := by
  have hline : IsLine (String.ofList ((if negative then ['-'] else []) ++ text)) := by
    refine IsUnbroken.isLine ?_
    have htext : IsUnbroken text := hoccurs.isUnbroken_chars
    cases negative <;> simp [htext, isBlank]
  obtain ⟨hregular⟩ := hoccurs
  cases hregular with
  | numeral spelled =>
      rw [ofNumeral_spelled]
      split
      · exact .ok _
      · exact .failWith _ (isLine_append.mpr ⟨by decide, hline⟩)

theorem reportsLines_ofWord {letters : List Char} (hoccurs : (word letters).Occurs) :
    ReportsLines (ofWord (String.ofList letters)) := by
  have hletters : IsUnbroken letters := hoccurs.isUnbroken_chars
  unfold ofWord
  split
  · exact .ok _
  · refine .failWith _ (isLine_append.mpr ⟨by decide, IsUnbroken.isLine ?_⟩)
    rwa [String.toList_ofList]

theorem reportsLines_strayError {c : Char} (hoccurs : (stray c).Occurs) :
    ReportsLines (strayError c : Except Fault α) := by
  refine .failWith _ (isLine_append.mpr ⟨by decide, IsUnbroken.isLine ?_⟩)
  rw [String.toList_singleton]
  exact hoccurs.isUnbroken_chars

/-- Whatever the pieces become, a message quotes at most one of them. -/
theorem reportsLines_ofLexemes {previous : Option Token} {pieces : List Lexeme}
    (hoccur : ∀ piece ∈ pieces, piece.Occurs) : ReportsLines (ofLexemes previous pieces) := by
  induction previous, pieces using ofLexemes.induct with
  | case1 previous => exact .ok []
  | case2 previous text rest hmay ih =>
      obtain ⟨-, hnumeral, hrest⟩ := by simpa only [List.forall_mem_cons] using hoccur
      rw [ofLexemes.eq_2, if_pos hmay]
      exact (reportsLines_ofNumeral hnumeral true).bind fun token _ => (ih token hrest).map _
  | case3 previous text rest hmay ih =>
      rw [ofLexemes.eq_2, if_neg hmay]
      exact (ih (List.forall_mem_cons.mp hoccur).2).map _
  | case4 previous text rest ih =>
      obtain ⟨hnumeral, hrest⟩ := List.forall_mem_cons.mp hoccur
      rw [ofLexemes.eq_3]
      exact (reportsLines_ofNumeral hnumeral false).bind fun token _ => (ih token hrest).map _
  | case5 previous symbol rest hnext ih =>
      rw [ofLexemes.eq_4 _ _ _ hnext]
      exact (ih (List.forall_mem_cons.mp hoccur).2).map _
  | case6 previous isOpen rest ih =>
      rw [ofLexemes.eq_5]
      exact (ih (List.forall_mem_cons.mp hoccur).2).map _
  | case7 previous letters rest ih =>
      obtain ⟨hword, hrest⟩ := List.forall_mem_cons.mp hoccur
      rw [ofLexemes.eq_6]
      exact (reportsLines_ofWord hword).bind fun token _ => (ih token hrest).map _
  | case8 previous c rest =>
      rw [ofLexemes.eq_7]
      exact reportsLines_strayError (List.forall_mem_cons.mp hoccur).1

theorem reportsLines_validate (formula : String) : ReportsLines (Parentheses.validate formula) := by
  unfold Parentheses.validate
  split
  · exact .ok _
  · exact .fail _
  · exact .fail _
  · exact .failWith _ (by decide +kernel)

theorem reportsLines_tokenize (formula : String) : ReportsLines (tokenize formula) := by
  unfold tokenize
  split
  · exact .failWith _ (by decide)
  · exact (reportsLines_validate formula).bind fun _ _ =>
      reportsLines_ofLexemes (munches_scan formula.toList).occurs

theorem reportsLines_postfixFrom (stack tokens : List Token) :
    ReportsLines (postfixFrom stack tokens) := by
  fun_induction postfixFrom stack tokens with
  | case1 stack hopening => exact .fail _
  | case2 stack hopening => exact .ok stack
  | case3 stack value text rest ih => exact ih.map _
  | case4 stack name rest ih => exact ih
  | case5 stack symbol precedence rest ih => exact ih.map _
  | case6 stack rest ih => exact ih
  | case7 stack rest hnone => exact .fail _
  | case8 stack rest opening below hbelow ih => exact ih.map _

end Token

/-! ## Evaluations -/

theorem Arithmetic.Raises.mem_operationErrors {arithmetic : Arithmetic α}
    (hlisted : arithmetic.ReportsListed) {error : CalcError} (hraises : arithmetic.Raises error) :
    error ∈ operationErrors := by
  cases hraises with
  | binary herror => exact hlisted.binary herror
  | unary herror => exact hlisted.unary herror

theorem isLine_of_mem_operationErrors {error : CalcError} (hmem : error ∈ operationErrors) :
    IsLine error.message := by
  have hall : ∀ error ∈ operationErrors, IsLine error.message := by decide
  exact hall error hmem

namespace Formula

open Token

theorem reportsLines_ofDatum (mode : Datum) : ReportsLines (AngleMode.ofDatum mode) := by
  unfold AngleMode.ofDatum
  split
  · split
    · exact .ok _
    · exact .fail _
  · exact .fail _

theorem reportsLines_prepare (mode : Datum) (formula : String) :
    ReportsLines (prepare mode formula) := by
  refine (reportsLines_ofDatum mode).bind fun angleMode _ => ?_
  refine (reportsLines_tokenize formula).bind fun tokens _ => ?_
  exact (reportsLines_postfixFrom [] tokens).bind fun ordered _ => .ok _

/-- Whatever the formula holds, an evaluation reports no error whose message would break a line. -/
theorem reportsLines_evaluateIn {arithmetic : Arithmetic α} (hreads : arithmetic.ReadsNumerals)
    (hlisted : arithmetic.ReportsListed) (mode : Datum) (formula : String) :
    ReportsLines (evaluateIn arithmetic mode formula) := by
  rw [evaluateIn_eq]
  refine (reportsLines_prepare mode formula).bind fun (angleMode, ordered) hprepare => ?_
  obtain ⟨harise, hparen⟩ := arises_of_prepare hprepare
  rcases evaluatePostfix_cases hreads angleMode harise hparen with
    ⟨value, hvalue, -⟩ | ⟨error, herror, hraises⟩ | ⟨hlacking, -⟩
  · exact hvalue ▸ .ok value
  · exact herror ▸ .calculation (isLine_of_mem_operationErrors
      (hraises.mem_operationErrors hlisted))
  · exact hlacking ▸ .fail _

end Formula

end SciCalc
