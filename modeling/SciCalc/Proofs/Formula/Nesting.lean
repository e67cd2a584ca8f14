import Mathlib.Data.List.Infix
import SciCalc.Formula.Parentheses
import SciCalc.Proofs.Formula.Tree

/-! # Balance and depth of parentheses

The counter that reads a text from the left is compared with what can be said of the text as a
whole: how many opening and closing parentheses its prefixes hold.
-/

namespace SciCalc.Parentheses

/-- No prefix of the text leaves more than `limit` parentheses open. -/
def NestsWithin (limit : Nat) (cs : List Char) : Prop :=
  ∀ start, start <+: cs → start.count '(' ≤ start.count ')' + limit

/-- Every closing parenthesis of the text has a partner before it, and every opening one has a
partner after it. -/
structure Balanced (cs : List Char) : Prop where
  closes_le : ∀ start, start <+: cs → start.count ')' ≤ start.count '('
  closes_eq : cs.count ')' = cs.count '('

instance (limit : Nat) (cs : List Char) : Decidable (NestsWithin limit cs) :=
  decidable_of_iff (∀ start ∈ cs.inits, start.count '(' ≤ start.count ')' + limit)
    (by simp [NestsWithin])

/-- From the given depth, no prefix of the text goes below zero or above the greatest depth. -/
def StaysInside (depth : Nat) (cs : List Char) : Prop :=
  ∀ start, start <+: cs → start.count ')' ≤ depth + start.count '(' ∧
    depth + start.count '(' ≤ start.count ')' + Settings.greatestDepth

theorem forall_prefix_cons {α : Type} {x : α} {rest : List α} {P : List α → Prop} :
    (∀ start, start <+: x :: rest → P start) ↔
      P [] ∧ ∀ start, start <+: rest → P (x :: start) := by
  constructor
  · intro h
    exact ⟨h [] List.nil_prefix, fun start hstart => h _ ((List.prefix_cons_inj x).mpr hstart)⟩
  · rintro ⟨hnil, hcons⟩ start hstart
    rcases List.prefix_cons_iff.mp hstart with rfl | ⟨tail, rfl, htail⟩
    · exact hnil
    · exact hcons tail htail

theorem forall_prefix_append {first second : List Char} {P : List Char → Prop} :
    (∀ start, start <+: first ++ second → P start) ↔
      (∀ start, start <+: first → P start) ∧
        ∀ start, start <+: second → P (first ++ start) := by
  induction first generalizing P with
  | nil =>
      refine ⟨fun h => ⟨fun start hstart => ?_, h⟩, And.right⟩
      exact h start (hstart.trans List.nil_prefix)
  | cons c rest ih =>
      simp only [List.cons_append, forall_prefix_cons, ih, and_assoc]

theorem StaysInside.depth_le {depth : Nat} {cs : List Char} (hstays : StaysInside depth cs) :
    depth ≤ Settings.greatestDepth := by
  simpa using (hstays [] List.nil_prefix).2

theorem staysInside_opening_iff {depth : Nat} {rest : List Char} :
    StaysInside depth ('(' :: rest) ↔ StaysInside (depth + 1) rest := by
  simp only [StaysInside, forall_prefix_cons]
  constructor
  · rintro ⟨_, hrest⟩ start hstart
    have := hrest start hstart
    simp only [List.count_cons_self, List.count_cons_of_ne (by decide : '(' ≠ ')')] at this
    omega
  · intro hrest
    have hempty := hrest [] List.nil_prefix
    refine ⟨by simp at hempty ⊢; omega, fun start hstart => ?_⟩
    have := hrest start hstart
    simp only [List.count_cons_self, List.count_cons_of_ne (by decide : '(' ≠ ')')]
    omega

theorem staysInside_closing_iff {depth : Nat} {rest : List Char}
    (hdepth : depth + 1 ≤ Settings.greatestDepth) :
    StaysInside (depth + 1) (')' :: rest) ↔ StaysInside depth rest := by
  simp only [StaysInside, forall_prefix_cons]
  constructor
  · rintro ⟨_, hrest⟩ start hstart
    have := hrest start hstart
    simp only [List.count_cons_self, List.count_cons_of_ne (by decide : ')' ≠ '(')] at this
    omega
  · intro hrest
    refine ⟨by simpa using hdepth, fun start hstart => ?_⟩
    have := hrest start hstart
    simp only [List.count_cons_self, List.count_cons_of_ne (by decide : ')' ≠ '(')]
    omega

theorem not_staysInside_closing {rest : List Char} : ¬ StaysInside 0 (')' :: rest) := by
  intro hstays
  have := (hstays [')'] ((List.prefix_cons_inj ')').mpr List.nil_prefix)).1
  simp at this

theorem staysInside_cons_iff {depth : Nat} {c : Char} {rest : List Char}
    (hdepth : depth ≤ Settings.greatestDepth) (hopen : c ≠ '(') (hclose : c ≠ ')') :
    StaysInside depth (c :: rest) ↔ StaysInside depth rest := by
  simp only [StaysInside, forall_prefix_cons, List.count_cons_of_ne hopen,
    List.count_cons_of_ne hclose]
  exact ⟨And.right, fun hrest => ⟨by simpa using hdepth, hrest⟩⟩

/-- The counter ends at a depth exactly if it stays inside at every prefix. -/
theorem depthFrom_eq_ok_iff {depth final : Nat} {cs : List Char}
    (hdepth : depth ≤ Settings.greatestDepth) :
    depthFrom depth cs = .ok final ↔
      StaysInside depth cs ∧ depth + cs.count '(' = final + cs.count ')' := by
  induction cs generalizing depth with
  | nil => simp [depthFrom, StaysInside, hdepth]
  | cons c rest ih =>
      by_cases hopen : c = '('
      · subst hopen
        rw [staysInside_opening_iff, List.count_cons_self,
          List.count_cons_of_ne (by decide : '(' ≠ ')')]
        by_cases hroom : depth < Settings.greatestDepth
        · simp only [depthFrom, if_true, if_pos hroom, ih (Nat.succ_le_of_lt hroom)]
          exact and_congr_right fun _ => by omega
        · simp only [depthFrom, if_true, if_neg hroom, reduceCtorEq, false_iff]
          exact fun hstays => hroom (Nat.lt_of_succ_le hstays.1.depth_le)
      · by_cases hclose : c = ')'
        · subst hclose
          rw [List.count_cons_self, List.count_cons_of_ne (by decide : ')' ≠ '(')]
          cases depth with
          | zero => simp [depthFrom, not_staysInside_closing]
          | succ outer =>
              rw [staysInside_closing_iff hdepth]
              simp only [depthFrom, hopen, if_false, if_true, ih (Nat.le_of_succ_le hdepth)]
              exact and_congr_right fun _ => by omega
        · rw [staysInside_cons_iff hdepth hopen hclose, List.count_cons_of_ne hopen,
            List.count_cons_of_ne hclose]
          simp only [depthFrom, hopen, hclose, if_false, ih hdepth]

theorem staysInside_zero_iff {cs : List Char} :
    StaysInside 0 cs ↔
      (∀ start, start <+: cs → start.count ')' ≤ start.count '(') ∧
        NestsWithin Settings.greatestDepth cs := by
  simp only [StaysInside, NestsWithin, Nat.zero_add, forall_and]

theorem depth_eq_ok_iff {text : String} {final : Nat} :
    depth text = .ok final ↔ StaysInside 0 text.toList ∧
      text.toList.count '(' = final + text.toList.count ')' := by
  rw [depth, depthFrom_eq_ok_iff (Nat.zero_le _), Nat.zero_add]

theorem depth_le_of_depth {text : String} {final : Nat} (hdepth : depth text = .ok final) :
    final ≤ Settings.greatestDepth := by
  obtain ⟨hstays, hcount⟩ := depth_eq_ok_iff.mp hdepth
  have hend := (hstays text.toList (List.prefix_refl _)).2
  omega

theorem depthFrom_append (start : Nat) (first second : List Char) :
    depthFrom start (first ++ second) =
      depthFrom start first >>= fun middle => depthFrom middle second := by
  induction first generalizing start with
  | nil => rfl
  | cons c rest ih =>
      simp only [List.cons_append, depthFrom]
      split
      · split
        · exact ih _
        · rfl
      split
      · cases start with
        | zero => rfl
        | succ outer => exact ih outer
      · exact ih start

theorem depthFrom_closings (count : Nat) :
    depthFrom count (List.replicate count ')') = .ok 0 := by
  induction count with
  | zero => rfl
  | succ count ih => exact ih

theorem validate_eq_ok_iff_depth {text : String} :
    validate text = .ok () ↔ depth text = .ok 0 := by
  unfold validate
  split <;> simp_all

/-- A text that leaves some parentheses open passes the check with as many closing ones behind. -/
theorem validate_append_closings {text : String} {count : Nat} (hdepth : depth text = .ok count) :
    validate (text ++ String.ofList (List.replicate count ')')) = .ok () := by
  rw [depth] at hdepth
  rw [validate_eq_ok_iff_depth, depth, String.toList_append, String.toList_ofList, depthFrom_append, hdepth]
  exact depthFrom_closings count

/-- A text passes the check exactly if it is balanced and not nested too deep. -/
theorem validate_eq_ok_iff {text : String} :
    validate text = .ok () ↔
      Balanced text.toList ∧ NestsWithin Settings.greatestDepth text.toList := by
  rw [validate_eq_ok_iff_depth, depth_eq_ok_iff, staysInside_zero_iff]
  constructor
  · rintro ⟨⟨hcloses, hnests⟩, hcount⟩
    exact ⟨⟨hcloses, by omega⟩, hnests⟩
  · rintro ⟨⟨hcloses, hcount⟩, hnests⟩
    exact ⟨⟨hcloses, hnests⟩, by omega⟩

/-- A text that does not pass the check is refused for its parentheses. -/
theorem exists_message_of_violation {text : String}
    (hviolates : ¬ (Balanced text.toList ∧ NestsWithin Settings.greatestDepth text.toList)) :
    ∃ message, validate text = failWith .mismatchedParentheses message := by
  rw [← validate_eq_ok_iff] at hviolates
  unfold validate at hviolates ⊢
  split
  · simp_all
  · exact ⟨_, rfl⟩
  · exact ⟨_, rfl⟩
  · exact ⟨_, rfl⟩

/-! ## Building balanced texts -/

/-- No character of the text is a parenthesis. -/
def IsFlat (cs : List Char) : Prop := '(' ∉ cs ∧ ')' ∉ cs

instance (cs : List Char) : Decidable (IsFlat cs) :=
  inferInstanceAs (Decidable (_ ∧ _))

theorem isFlat_nil : IsFlat [] := by decide

theorem isFlat_name (function : UnaryFunction) : IsFlat function.name.toList := by
  cases function <;> decide +kernel

theorem isFlat_sign (sign : Formula.OperatorSign) : IsFlat [sign.char] := by
  cases sign <;> decide

theorem IsFlat.append {first second : List Char} (hfirst : IsFlat first)
    (hsecond : IsFlat second) : IsFlat (first ++ second) :=
  ⟨by simp [hfirst.1, hsecond.1], by simp [hfirst.2, hsecond.2]⟩

theorem IsFlat.balanced {cs : List Char} (hflat : IsFlat cs) : Balanced cs := by
  obtain ⟨hopen, hclose⟩ := hflat
  refine ⟨fun start hstart => ?_, by simp [List.count_eq_zero.mpr, hopen, hclose]⟩
  have hnone : ')' ∉ start := fun hmem => hclose (hstart.subset hmem)
  simp [List.count_eq_zero.mpr hnone]

theorem IsFlat.nestsWithin {cs : List Char} (hflat : IsFlat cs) (limit : Nat) :
    NestsWithin limit cs := by
  intro start hstart
  have hnone : '(' ∉ start := fun hmem => hflat.1 (hstart.subset hmem)
  simp [List.count_eq_zero.mpr hnone]

theorem Balanced.append {first second : List Char} (hfirst : Balanced first)
    (hsecond : Balanced second) : Balanced (first ++ second) := by
  refine ⟨forall_prefix_append.mpr ⟨hfirst.closes_le, fun start hstart => ?_⟩, ?_⟩
  · have := hsecond.closes_le start hstart
    simp only [List.count_append, hfirst.closes_eq]
    omega
  · simp only [List.count_append, hfirst.closes_eq, hsecond.closes_eq]

theorem NestsWithin.append {limit : Nat} {first second : List Char}
    (hbalanced : Balanced first) (hfirst : NestsWithin limit first)
    (hsecond : NestsWithin limit second) : NestsWithin limit (first ++ second) := by
  refine forall_prefix_append.mpr ⟨hfirst, fun start hstart => ?_⟩
  have := hsecond start hstart
  simp only [List.count_append, hbalanced.closes_eq]
  omega

/-- A text in a pair of parentheses. -/
def enclose (cs : List Char) : List Char := '(' :: (cs ++ [')'])

theorem Balanced.enclose {cs : List Char} (hbalanced : Balanced cs) :
    Balanced (enclose cs) := by
  refine ⟨?_, by simp [Parentheses.enclose, hbalanced.closes_eq]⟩
  simp only [Parentheses.enclose, forall_prefix_cons, forall_prefix_append]
  refine ⟨Nat.le_refl _, fun start hstart => ?_, ?_, fun start hstart => ?_⟩
  · have := hbalanced.closes_le start hstart
    simp only [List.count_cons_self, List.count_cons_of_ne (by decide : '(' ≠ ')')]
    omega
  · simp [hbalanced.closes_eq]
  · obtain rfl := List.prefix_nil.mp hstart
    simp [hbalanced.closes_eq]

theorem NestsWithin.enclose {limit : Nat} {cs : List Char} (hbalanced : Balanced cs)
    (hnests : NestsWithin limit cs) : NestsWithin (limit + 1) (enclose cs) := by
  simp only [Parentheses.enclose, NestsWithin, forall_prefix_cons, forall_prefix_append]
  refine ⟨by simp, fun start hstart => ?_, ?_, fun start hstart => ?_⟩
  · have := hnests start hstart
    simp only [List.count_cons_self, List.count_cons_of_ne (by decide : '(' ≠ ')')]
    omega
  · simp [hbalanced.closes_eq]
  · obtain rfl := List.prefix_nil.mp hstart
    simp [hbalanced.closes_eq]

end SciCalc.Parentheses
