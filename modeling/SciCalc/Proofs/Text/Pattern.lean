import Mathlib.Data.List.Basic
import SciCalc.Proofs.Runs

/-! # Replacing what a pattern matches

A pattern is a row of steps, and each step takes a run of characters of one class. An eager step
tries the longest run first and the others the shortest; a step tries the next run if the steps
behind it find no match with this one. The first match found is the match. In a text, what a pattern
matches is replaced by those of its runs that are kept, from the left to the right.
-/

namespace SciCalc.Text

/-- One step of a pattern: the characters that it takes, how many of them at least and at most,
whether it tries the longest run first, and whether its run is kept. -/
structure Step where
  admits : Char → Bool
  least : ℕ
  most : Option ℕ
  eager : Bool
  kept : Bool

namespace Step

/-- Takes one character. -/
def one (admits : Char → Bool) (kept : Bool) : Step := ⟨admits, 1, some 1, true, kept⟩

/-- Takes one character or none. -/
def optional (admits : Char → Bool) (kept : Bool) : Step := ⟨admits, 0, some 1, true, kept⟩

/-- Takes as many characters as it can, but so many at least. -/
def longest (admits : Char → Bool) (least : ℕ) (kept : Bool) : Step :=
  ⟨admits, least, none, true, kept⟩

/-- Takes as few characters as it can. -/
def shortest (admits : Char → Bool) (kept : Bool) : Step := ⟨admits, 0, none, false, kept⟩

variable (step : Step)

/-- The lengths of the runs at the start of a text, in the order in which they are tried. -/
def lengths (cs : List Char) : List ℕ :=
  let reach := (cs.takeWhile step.admits).length
  let upward := List.range' step.least (step.most.elim reach (min reach) + 1 - step.least)
  if step.eager then upward.reverse else upward

/-- A match with the run of the step in front of it. -/
def extend (run : List Char) (found : Option (List Char × List Char)) :
    Option (List Char × List Char) :=
  found.map fun (front, rest) => ((if step.kept then run else []) ++ front, rest)

end Step

/-- What steps match at the start of a text: the runs that are kept, and the text behind. -/
def matchSteps (atEnd : Bool) : List Step → List Char → Option (List Char × List Char)
  | [], cs => if atEnd && !cs.isEmpty then none else some ([], cs)
  | step :: steps, cs =>
    (step.lengths cs).findSome? fun length =>
      step.extend (cs.take length) (matchSteps atEnd steps (cs.drop length))

/-- A pattern: its steps, and whether it matches only at the end of a text. -/
structure Pattern where
  steps : List Step
  atEnd : Bool

namespace Pattern

variable (pattern : Pattern)

def match? (cs : List Char) : Option (List Char × List Char) :=
  matchSteps pattern.atEnd pattern.steps cs

/-- Replaces what the pattern matches behind the given number of characters, which belong to a
match already. -/
def replaceFrom : (matched : ℕ) → List Char → List Char
  | _, [] => []
  | matched + 1, _ :: cs => replaceFrom matched cs
  | 0, c :: cs =>
    match pattern.match? (c :: cs) with
    | some (front, rest) => front ++ replaceFrom (cs.length - rest.length) cs
    | none => c :: replaceFrom 0 cs

/-- Replaces what the pattern matches in a text. -/
def replace (cs : List Char) : List Char := pattern.replaceFrom 0 cs

end Pattern

/-! ## One step -/

section Steps

variable {atEnd kept : Bool} {steps : List Step} {admits : Char → Bool} {c : Char} {cs : List Char}

theorem Step.extend_nil (step : Step) (found : Option (List Char × List Char)) :
    step.extend [] found = found := by
  cases found <;> simp [extend]

theorem Step.extend_cons (step : Step) (found : Option (List Char × List Char)) (c : Char)
    (run : List Char) : step.extend (c :: run) found = step.extend [c] (step.extend run found) := by
  cases found with
  | none => rfl
  | some found =>
      simp only [extend, Option.map]
      split <;> rfl

/-- Lengths that are greater by one. -/
theorem range'_succ_eq_map (least count : ℕ) :
    List.range' (least + 1) count = (List.range' least count).map (· + 1) := by
  simpa only [Nat.add_comm] using (List.map_add_range' (a := 1) least count 1).symm

/-- Steps that try one character more than others in front of the same text. -/
theorem findSome?_lengths_succ (step : Step) (lengths : List ℕ) :
    (lengths.map (· + 1)).findSome? (fun length =>
        step.extend ((c :: cs).take length) (matchSteps atEnd steps ((c :: cs).drop length))) =
      step.extend [c] (lengths.findSome? fun length =>
        step.extend (cs.take length) (matchSteps atEnd steps (cs.drop length))) := by
  induction lengths with
  | nil => rfl
  | cons length rest ih =>
      rw [List.map_cons, List.findSome?_cons, List.findSome?_cons, List.take_succ_cons,
        List.drop_succ_cons, Step.extend_cons, ih]
      cases step.extend (cs.take length) (matchSteps atEnd steps (cs.drop length)) <;> rfl

theorem matchSteps_one_nil : matchSteps atEnd (.one admits kept :: steps) [] = none := by
  simp [matchSteps, Step.lengths, Step.one]

theorem matchSteps_one_cons :
    matchSteps atEnd (.one admits kept :: steps) (c :: cs) =
      if admits c then (Step.one admits kept).extend [c] (matchSteps atEnd steps cs) else none := by
  cases hc : admits c with
  | false => simp [matchSteps, Step.lengths, Step.one, hc]
  | true =>
      have hlengths : (Step.one admits kept).lengths (c :: cs) = [1] := by
        simp [Step.lengths, Step.one, hc]
      rw [matchSteps, hlengths, List.findSome?_singleton]
      rfl

theorem matchSteps_optional_cons :
    matchSteps atEnd (.optional admits kept :: steps) (c :: cs) =
      (if admits c then (Step.optional admits kept).extend [c] (matchSteps atEnd steps cs)
        else none).or (matchSteps atEnd steps (c :: cs)) := by
  cases hc : admits c with
  | false => simp [matchSteps, Step.lengths, Step.optional, hc, Step.extend_nil]
  | true =>
      have hlengths : (Step.optional admits kept).lengths (c :: cs) = [1, 0] := by
        simp [Step.lengths, Step.optional, hc, List.range'_succ]
      rw [matchSteps, hlengths, if_pos rfl]
      simp only [List.findSome?_cons, List.findSome?_nil, List.take_succ_cons, List.drop_succ_cons,
        List.take_zero, List.drop_zero, Step.extend_nil]
      cases (Step.optional admits kept).extend [c] (matchSteps atEnd steps cs) <;>
        cases matchSteps atEnd steps (c :: cs) <;> rfl

theorem matchSteps_longest_nil :
    matchSteps atEnd (.longest admits 0 kept :: steps) [] = matchSteps atEnd steps [] := by
  simp [matchSteps, Step.lengths, Step.longest, Step.extend_nil]

/-- With the next character first, and without it if that leads to no match. -/
theorem matchSteps_longest_cons :
    matchSteps atEnd (.longest admits 0 kept :: steps) (c :: cs) =
      (if admits c then
          (Step.longest admits 0 kept).extend [c]
            (matchSteps atEnd (.longest admits 0 kept :: steps) cs)
        else none).or (matchSteps atEnd steps (c :: cs)) := by
  cases hc : admits c with
  | false => simp [matchSteps, Step.lengths, Step.longest, hc, Step.extend_nil]
  | true =>
      have hlengths : (Step.longest admits 0 kept).lengths (c :: cs) =
          ((Step.longest admits 0 kept).lengths cs).map (· + 1) ++ [0] := by
        simp [Step.lengths, Step.longest, hc, List.range'_succ (n := _ + 1), range'_succ_eq_map]
      rw [matchSteps, hlengths, List.findSome?_append, findSome?_lengths_succ,
        List.findSome?_singleton, List.take_zero, List.drop_zero, Step.extend_nil]
      rfl

theorem matchSteps_some_nil :
    matchSteps atEnd (.longest admits 1 kept :: steps) [] = none := by
  simp [matchSteps, Step.lengths, Step.longest]

theorem matchSteps_some_cons :
    matchSteps atEnd (.longest admits 1 kept :: steps) (c :: cs) =
      if admits c then
        (Step.longest admits 1 kept).extend [c]
          (matchSteps atEnd (.longest admits 0 kept :: steps) cs)
      else none := by
  cases hc : admits c with
  | false => simp [matchSteps, Step.lengths, Step.longest, hc]
  | true =>
      have hlengths : (Step.longest admits 1 kept).lengths (c :: cs) =
          ((Step.longest admits 0 kept).lengths cs).map (· + 1) := by
        simp [Step.lengths, Step.longest, hc, range'_succ_eq_map]
      rw [matchSteps, hlengths, findSome?_lengths_succ]
      rfl

/-- If no run leads to a match, none of at least one character does. -/
theorem matchSteps_some_eq_none
    (hnone : matchSteps atEnd (.longest admits 0 kept :: steps) cs = none) :
    matchSteps atEnd (.longest admits 1 kept :: steps) cs = none := by
  cases cs with
  | nil => exact matchSteps_some_nil
  | cons c cs =>
      rw [matchSteps_longest_cons, Option.or_eq_none_iff] at hnone
      rw [matchSteps_some_cons]
      exact hnone.1

/-- Without the next character first, and with it if that leads to no match. -/
theorem matchSteps_shortest_cons :
    matchSteps atEnd (.shortest admits kept :: steps) (c :: cs) =
      (matchSteps atEnd steps (c :: cs)).or
        (if admits c then
          (Step.shortest admits kept).extend [c]
            (matchSteps atEnd (.shortest admits kept :: steps) cs)
        else none) := by
  cases hc : admits c with
  | false => simp [matchSteps, Step.lengths, Step.shortest, hc, Step.extend_nil]
  | true =>
      have hlengths : (Step.shortest admits kept).lengths (c :: cs) =
          0 :: ((Step.shortest admits kept).lengths cs).map (· + 1) := by
        simp [Step.lengths, Step.shortest, hc, List.range'_succ, range'_succ_eq_map]
      rw [matchSteps, hlengths, List.findSome?_cons, findSome?_lengths_succ, List.take_zero,
        List.drop_zero, Step.extend_nil]
      cases matchSteps atEnd steps (c :: cs) <;> rfl

end Steps

/-! ## Texts -/

namespace Pattern

variable {pattern : Pattern} {front back rest : List Char}

theorem replaceFrom_eq (matched : ℕ) (cs : List Char) :
    pattern.replaceFrom matched cs = pattern.replace (cs.drop matched) := by
  induction cs generalizing matched with
  | nil => cases matched <;> rfl
  | cons c cs ih =>
      cases matched with
      | zero => rfl
      | succ matched => exact ih matched

/-- What is matched is replaced, and then the text behind it. -/
theorem replace_of_match {c : Char} {run : List Char}
    (hmatch : pattern.match? (c :: run ++ rest) = some (front, rest)) :
    pattern.replace (c :: run ++ rest) = front ++ pattern.replace rest := by
  have hbehind : (run ++ rest).length - rest.length = run.length := by simp
  rw [replace, List.cons_append, replaceFrom]
  rw [List.cons_append] at hmatch
  simp only [hmatch, replaceFrom_eq, hbehind, List.drop_left]

theorem replace_of_no_match {c : Char} {cs : List Char} (hnone : pattern.match? (c :: cs) = none) :
    pattern.replace (c :: cs) = c :: pattern.replace cs := by
  rw [replace, replaceFrom, hnone]
  rfl

section Mark

variable {mark : Char} {kept : Bool} {steps : List Step}
  (hsteps : pattern.steps = .one (· == mark) kept :: steps)

include hsteps

/-- Nothing is replaced in front of the character that a match begins with. -/
theorem replace_append (hfront : mark ∉ front) (cs : List Char) :
    pattern.replace (front ++ cs) = front ++ pattern.replace cs := by
  induction front with
  | nil => rfl
  | cons c front ih =>
      rw [List.mem_cons, not_or] at hfront
      have hnone : pattern.match? (c :: (front ++ cs)) = none := by
        rw [match?, hsteps, matchSteps_one_cons, if_neg (by simpa using Ne.symm hfront.1)]
      rw [List.cons_append, replace_of_no_match hnone, ih hfront.2, List.cons_append]

theorem replace_of_notMem (hfront : mark ∉ front) : pattern.replace front = front := by
  have hnothing := replace_append hsteps hfront []
  rwa [List.append_nil, replace, replace, replaceFrom, List.append_nil] at hnothing

end Mark

end Pattern

end SciCalc.Text
