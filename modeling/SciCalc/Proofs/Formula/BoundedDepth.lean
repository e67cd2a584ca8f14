import SciCalc.Proofs.Formula.Nesting

/-! # The grammar of nested parentheses

The check of a formula counts open parentheses, one character after the other. The grammar says of
the parentheses as a whole how they are made up: of pairs side by side, each around such a sequence
with one level less. The check accepts what the grammar makes with ten levels. Of every other text
it reports what the counter does first, to reach eleven or to go below zero.
-/

namespace SciCalc.Parentheses

def isParenthesis (c : Char) : Bool := c == '(' || c == ')'

/-- What is left of a text when every other character is taken out. -/
def skeleton (cs : List Char) : List Char := cs.filter isParenthesis

/-- The sequences of parentheses with at most the given number of levels: none at all, or a pair
around a sequence with one level less, and such a sequence again behind the pair. -/
inductive Nested : Nat → List Char → Prop where
  | empty (levels : Nat) : Nested levels []
  | pair {levels : Nat} {inner rest : List Char} (hinner : Nested levels inner)
      (hrest : Nested (levels + 1) rest) : Nested (levels + 1) ('(' :: (inner ++ ')' :: rest))

/-- How far a text moves the counter: up for every opening parenthesis, down for every closing
one. -/
def level (cs : List Char) : Int := cs.count '(' - cs.count ')'

/-- From the given start the counter comes to stand above the greatest number of levels, and until
then it never stands below zero. -/
def DeepensFirst (levels : Nat) (start : Int) (cs : List Char) : Prop :=
  ∃ read, read <+: cs ∧ start + level read = levels + 1 ∧
    ∀ before, before <+: read → 0 ≤ start + level before

@[simp] theorem level_nil : level [] = 0 := rfl

@[simp] theorem level_opening (rest : List Char) : level ('(' :: rest) = 1 + level rest := by
  simp only [level, List.count_cons_self, List.count_cons_of_ne (by decide : '(' ≠ ')')]
  omega

@[simp] theorem level_closing (rest : List Char) : level (')' :: rest) = -1 + level rest := by
  simp only [level, List.count_cons_self, List.count_cons_of_ne (by decide : ')' ≠ '(')]
  omega

theorem level_cons {c : Char} (hopen : c ≠ '(') (hclose : c ≠ ')') (rest : List Char) :
    level (c :: rest) = level rest := by
  simp only [level, List.count_cons_of_ne hopen, List.count_cons_of_ne hclose]

/-! ## What the counter reads -/

@[simp] theorem skeleton_opening (rest : List Char) :
    skeleton ('(' :: rest) = '(' :: skeleton rest := rfl

@[simp] theorem skeleton_closing (rest : List Char) :
    skeleton (')' :: rest) = ')' :: skeleton rest := rfl

theorem skeleton_cons {c : Char} (hopen : c ≠ '(') (hclose : c ≠ ')') (rest : List Char) :
    skeleton (c :: rest) = skeleton rest := by
  simp [skeleton, isParenthesis, hopen, hclose]

theorem skeleton_append (first second : List Char) :
    skeleton (first ++ second) = skeleton first ++ skeleton second :=
  List.filter_append ..

theorem skeleton_of_isFlat {cs : List Char} (hflat : IsFlat cs) : skeleton cs = [] := by
  apply List.filter_eq_nil_iff.mpr
  intro c hmem
  have hopen : c ≠ '(' := fun heq => hflat.1 (heq ▸ hmem)
  have hclose : c ≠ ')' := fun heq => hflat.2 (heq ▸ hmem)
  simp [isParenthesis, hopen, hclose]

/-- Only the parentheses of a text move the counter. -/
theorem depthFrom_skeleton (depth : Nat) (cs : List Char) :
    depthFrom depth (skeleton cs) = depthFrom depth cs := by
  fun_induction depthFrom depth cs with
  | case1 depth => rfl
  | case2 depth rest hroom ih => simp only [skeleton_opening, depthFrom, if_true, if_pos hroom, ih]
  | case3 depth rest hroom => simp only [skeleton_opening, depthFrom, if_true, if_neg hroom]
  | case4 rest _ => rfl
  | case5 rest outer _ ih => exact ih
  | case6 depth c rest hopen hclose ih => rw [skeleton_cons hopen hclose, ih]

/-! ## What the grammar makes -/

/-- A sequence for which there is room leaves the counter where it was. -/
theorem Nested.depthFrom_append {levels : Nat} {cs : List Char} (hnested : Nested levels cs)
    {depth : Nat} (hroom : depth + levels ≤ Settings.greatestDepth) (rest : List Char) :
    depthFrom depth (cs ++ rest) = depthFrom depth rest := by
  induction hnested generalizing depth rest with
  | empty levels => rfl
  | @pair levels inner tail _ _ ihinner ihtail =>
      calc
        depthFrom depth ('(' :: (inner ++ ')' :: tail) ++ rest)
            = depthFrom (depth + 1) (inner ++ ')' :: (tail ++ rest)) := by
              have hopen : depth < Settings.greatestDepth := by omega
              simp only [List.cons_append, List.append_assoc, depthFrom, if_true, if_pos hopen]
        _ = depthFrom (depth + 1) (')' :: (tail ++ rest)) := ihinner (by omega) _
        _ = depthFrom depth (tail ++ rest) := rfl
        _ = depthFrom depth rest := ihtail hroom rest

/-- What may stand behind the given number of open parentheses: on each level a sequence for which
there is room, and then the parenthesis that closes the level. -/
def Completes : Nat → List Char → Prop
  | 0, cs => Nested Settings.greatestDepth cs
  | depth + 1, cs => ∃ inner rest, cs = inner ++ ')' :: rest ∧
      Nested (Settings.greatestDepth - (depth + 1)) inner ∧ Completes depth rest

/-- A pair in front of what may stand there may stand there, if there is room for another level. -/
theorem Completes.pair {depth : Nat} {inner rest : List Char}
    (hinner : Nested (Settings.greatestDepth - (depth + 1)) inner) (hrest : Completes depth rest)
    (hroom : depth < Settings.greatestDepth) : Completes depth ('(' :: (inner ++ ')' :: rest)) := by
  cases depth with
  | zero => exact Nested.pair hinner hrest
  | succ outer =>
      obtain ⟨behind, beyond, rfl, hbehind, hbeyond⟩ := hrest
      have hlevels : Settings.greatestDepth - (outer + 1) =
          Settings.greatestDepth - (outer + 1 + 1) + 1 := by omega
      rw [hlevels] at hbehind
      refine ⟨'(' :: (inner ++ ')' :: behind), beyond, by simp, ?_, hbeyond⟩
      rw [hlevels]
      exact .pair hinner hbehind

/-- What brings the counter down to zero closes level by level. -/
theorem completes_of_depthFrom {depth : Nat} {cs : List Char}
    (hdepth : depthFrom depth cs = .ok 0) : Completes depth (skeleton cs) := by
  fun_induction depthFrom depth cs with
  | case1 depth =>
      obtain rfl := Except.ok.inj hdepth
      exact .empty _
  | case2 depth rest hroom ih =>
      obtain ⟨inner, beyond, hskeleton, hinner, hbeyond⟩ := ih hdepth
      rw [skeleton_opening, hskeleton]
      exact hbeyond.pair hinner hroom
  | case3 depth rest hroom => cases hdepth
  | case4 rest _ => cases hdepth
  | case5 rest outer _ ih =>
      rw [skeleton_closing]
      exact ⟨[], skeleton rest, rfl, .empty _, ih hdepth⟩
  | case6 depth c rest hopen hclose ih =>
      rw [skeleton_cons hopen hclose]
      exact ih hdepth

theorem depthFrom_eq_ok_zero_iff_nested {cs : List Char} :
    depthFrom 0 cs = .ok 0 ↔ Nested Settings.greatestDepth (skeleton cs) := by
  constructor
  · exact completes_of_depthFrom
  · intro hnested
    rw [← depthFrom_skeleton, ← List.append_nil (skeleton cs),
      hnested.depthFrom_append (by omega)]
    rfl

/-! ## What is violated first -/

theorem DeepensFirst.start_nonneg {levels : Nat} {start : Int} {cs : List Char}
    (hdeepens : DeepensFirst levels start cs) : 0 ≤ start := by
  obtain ⟨read, -, -, hnonneg⟩ := hdeepens
  simpa using hnonneg [] List.nil_prefix

theorem deepensFirst_of_eq {levels : Nat} {start : Int} (hstart : start = levels + 1)
    (cs : List Char) : DeepensFirst levels start cs := by
  refine ⟨[], List.nil_prefix, by simpa using hstart, ?_⟩
  intro before hbefore
  obtain rfl := List.prefix_nil.mp hbefore
  simp only [level_nil]
  omega

/-- One character moves the start of the counter, as long as the start is on an allowed level. -/
theorem deepensFirst_cons_iff {levels : Nat} {start : Int} {c : Char} {rest : List Char}
    (hlow : 0 ≤ start) (hhigh : start ≤ levels) :
    DeepensFirst levels start (c :: rest) ↔ DeepensFirst levels (start + level [c]) rest := by
  have hlevel : ∀ read, start + level (c :: read) = start + level [c] + level read := by
    intro read
    simp only [level, List.count_cons, List.count_nil]
    omega
  constructor
  · rintro ⟨read, hread, hreached, hnonneg⟩
    rcases List.prefix_cons_iff.mp hread with rfl | ⟨tail, rfl, htail⟩
    · simp only [level_nil] at hreached
      omega
    · rw [hlevel] at hreached
      refine ⟨tail, htail, hreached, ?_⟩
      intro before hbefore
      rw [← hlevel]
      exact hnonneg _ ((List.prefix_cons_inj c).mpr hbefore)
  · rintro ⟨tail, htail, hreached, hnonneg⟩
    refine ⟨c :: tail, (List.prefix_cons_inj c).mpr htail, by rw [hlevel, hreached], ?_⟩
    rw [forall_prefix_cons]
    refine ⟨by simpa using hlow, ?_⟩
    intro before hbefore
    rw [hlevel]
    exact hnonneg before hbefore

/-- The counter reports the depth exactly if it leaves its range at the top first. -/
theorem depthFrom_eq_tooDeep_iff {depth : Nat} {cs : List Char}
    (hdepth : depth ≤ Settings.greatestDepth) :
    depthFrom depth cs = .error .tooDeep ↔ DeepensFirst Settings.greatestDepth depth cs := by
  have hlow : (0 : Int) ≤ depth := Int.natCast_nonneg depth
  have hhigh : (depth : Int) ≤ Settings.greatestDepth := Int.ofNat_le.mpr hdepth
  fun_induction depthFrom depth cs with
  | case1 depth =>
      refine iff_of_false nofun ?_
      rintro ⟨read, hread, hreached, -⟩
      obtain rfl := List.prefix_nil.mp hread
      simp only [level_nil] at hreached
      omega
  | case2 depth rest hroom ih =>
      have hrest := ih hroom (by omega) (by omega)
      rw [deepensFirst_cons_iff hlow hhigh]
      simpa using hrest
  | case3 depth rest hroom =>
      refine iff_of_true rfl ?_
      rw [deepensFirst_cons_iff hlow hhigh]
      apply deepensFirst_of_eq
      simp only [level_opening, level_nil]
      omega
  | case4 rest _ =>
      refine iff_of_false nofun ?_
      rw [deepensFirst_cons_iff hlow hhigh]
      intro hdeepens
      exact absurd hdeepens.start_nonneg (by simp)
  | case5 rest outer _ ih =>
      have hrest := ih (by omega) (by omega) (by omega)
      have hstart : ((outer + 1 : Nat) : Int) + level [')'] = outer := by
        simp only [level_closing, level_nil]
        omega
      rw [deepensFirst_cons_iff hlow hhigh, hstart]
      exact hrest
  | case6 depth c rest hopen hclose ih =>
      have hrest := ih hdepth hlow hhigh
      rw [deepensFirst_cons_iff hlow hhigh, level_cons hopen hclose]
      simpa using hrest

/-! ## The check -/

/-- A text passes the check exactly if its parentheses are made by the grammar with ten levels. Of
the others those are refused for their depth for which the counter reaches eleven before it ever
goes below zero, and all the rest because their parentheses do not match. -/
theorem validate_verdict (text : String) :
    (validate text = .ok () ↔ Nested 10 (skeleton text.toList)) ∧
      (validate text = failWith .mismatchedParentheses "Máximo 10 niveles de paréntesis" ↔
        DeepensFirst 10 0 text.toList) ∧
      (validate text = failWith .mismatchedParentheses "Paréntesis desbalanceados" ↔
        ¬ Nested 10 (skeleton text.toList) ∧ ¬ DeepensFirst 10 0 text.toList) := by
  have haccepts : depth text = .ok 0 ↔ Nested 10 (skeleton text.toList) :=
    depthFrom_eq_ok_zero_iff_nested
  have hdeepens : depth text = .error .tooDeep ↔ DeepensFirst 10 0 text.toList :=
    depthFrom_eq_tooDeep_iff (Nat.zero_le _)
  have hmessage : depthMessage = "Máximo 10 niveles de paréntesis" := by decide +kernel
  have hdefault : (fail .mismatchedParentheses : Except Fault Unit) =
      failWith .mismatchedParentheses "Paréntesis desbalanceados" := rfl
  have hapart : (failWith .mismatchedParentheses "Paréntesis desbalanceados" : Except Fault Unit) ≠
      failWith .mismatchedParentheses "Máximo 10 niveles de paréntesis" := by decide
  rw [← haccepts, ← hdeepens]
  unfold validate
  split
  next hzero => simp [hzero, failWith]
  next final hopen hfinal =>
    have hnonzero : final ≠ 0 := hopen
    simp [hfinal, hnonzero, hdefault, hapart]
  next hunopened => simp [hunopened, hdefault, hapart]
  next htooDeep => simp [htooDeep, hmessage, hapart.symm]

/-- What is wrong first is reported, whatever is wrong behind it. -/
example : validate ")(((((((((((" = failWith .mismatchedParentheses "Paréntesis desbalanceados" ∧
    validate "((((((((((())))))))))))" =
      failWith .mismatchedParentheses "Máximo 10 niveles de paréntesis" := by
  decide +kernel

end SciCalc.Parentheses
