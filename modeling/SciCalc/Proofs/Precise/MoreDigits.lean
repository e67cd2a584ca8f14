import SciCalc.Proofs.Precise.Calls

/-! # Digits in steps and at once

A calculator that has just evaluated or expanded a formula with success *stands at* the formula: it
remembers the value of the formula at its working digits. An evaluation stands at the initial
digits, an expansion at a step more, and the two numbers never change. So what a run of expansions
arrives at is what a calculator finds that starts from as many digits.
-/

namespace SciCalc.PreciseCalculator

variable {calculator : PreciseCalculator} {formula : String} {mode : AngleMode} {digits : Nat}
  {x : BigFloat}

/-! ## What never changes -/

theorem apply_keeps_setting (calculator : PreciseCalculator) (command : Command) :
    (calculator.apply command).state.initialDigits = calculator.initialDigits ∧
      (calculator.apply command).state.digitStep = calculator.digitStep := by
  rw [(apply_eq calculator command).2]
  cases calculator.attempt command <;> exact ⟨rfl, rfl⟩

/-- No call changes the digits that the calculator starts with, nor those that it adds. -/
theorem after_keeps_setting (calculator : PreciseCalculator) (commands : List Command) :
    (calculator.after commands).initialDigits = calculator.initialDigits ∧
      (calculator.after commands).digitStep = calculator.digitStep := by
  induction commands generalizing calculator with
  | nil => exact ⟨rfl, rfl⟩
  | cons command rest ih =>
      obtain ⟨hinitial, hstep⟩ := apply_keeps_setting calculator command
      rw [after, ← hinitial, ← hstep]
      exact ih _

/-! ## Standing at a formula -/

/-- The calculator works with the given digits and remembers the value of the formula at these. -/
structure StandsAt (calculator : PreciseCalculator) (formula : String) (mode : AngleMode)
    (digits : Nat) (x : BigFloat) : Prop where
  workingDigits : calculator.workingDigits = digits
  value : value digits mode formula = .ok x
  last : calculator.last = some (formula, mode, x)

theorem StandsAt.lastValue (hstands : calculator.StandsAt formula mode digits x) :
    calculator.lastValue = some x := by
  rw [PreciseCalculator.lastValue, hstands.last]
  rfl

/-- An evaluation shows the value at the initial digits and stands there. -/
theorem standsAt_evaluate {given : Datum} (hmode : AngleMode.ofDatum given = .ok mode)
    (hvalue : value calculator.initialDigits mode formula = .ok x) :
    (calculator.evaluate formula given).reply =
        .ok (.text (Precise.format x calculator.initialDigits)) ∧
      (calculator.evaluate formula given).state.StandsAt formula mode calculator.initialDigits
        x := by
  simp only [evaluate, hmode, compute, hvalue]
  exact ⟨rfl, rfl, hvalue, rfl⟩

/-- A call that succeeds has tried a formula, shows its value at the digits that the call works with,
and stands there. -/
theorem exists_standsAt_of_apply {command : Command}
    (hok : (calculator.apply command).reply.isOk) :
    ∃ formula mode x, calculator.requested command = .ok (formula, mode) ∧
      (calculator.apply command).reply = .ok (.text (Precise.format x
        (calculator.digitsFor calculator.workingDigits command))) ∧
      (calculator.apply command).state.StandsAt formula mode
        (calculator.digitsFor calculator.workingDigits command) x := by
  obtain ⟨hreply, hstate⟩ := apply_eq calculator command
  cases hattempt : calculator.attempt command with
  | error fault =>
      rw [hreply, hattempt] at hok
      cases hok
  | ok found =>
      obtain ⟨⟨formula, mode⟩, hrequested, hrest⟩ := bind_eq_ok_iff.mp hattempt
      obtain ⟨x, hvalue, hfound⟩ := bind_eq_ok_iff.mp hrest
      obtain rfl := Except.ok.inj hfound
      rw [hattempt] at hreply hstate
      refine ⟨formula, mode, x, hrequested, hreply, ?_⟩
      rw [hstate]
      exact ⟨rfl, hvalue, rfl⟩

/-- An expansion that succeeds moves a step on. -/
theorem StandsAt.expand (hstands : calculator.StandsAt formula mode digits x)
    (hok : calculator.expand.reply.isOk) :
    ∃ y, calculator.expand.reply =
        .ok (.text (Precise.format y (digits + calculator.digitStep))) ∧
      calculator.expand.state.StandsAt formula mode (digits + calculator.digitStep) y := by
  have happly : (calculator.apply .expand).reply.isOk := hok
  obtain ⟨formula', mode', y, hrequested, hreply, hnext⟩ := exists_standsAt_of_apply happly
  have hdigits : calculator.digitsFor calculator.workingDigits .expand =
      digits + calculator.digitStep := by
    simp [digitsFor, canExpand, hstands.last, hstands.workingDigits]
  simp only [requested, hstands.last, Except.ok.injEq, Prod.mk.injEq] at hrequested
  obtain ⟨rfl, rfl⟩ := hrequested
  rw [hdigits] at hreply hnext
  exact ⟨y, hreply, hnext⟩

/-- A run of expansions that all succeed moves on by as many steps, and its last answer shows the
value at the digits that it arrives at. -/
theorem StandsAt.expansions (hstands : calculator.StandsAt formula mode digits x)
    {before : Outcome PreciseCalculator}
    (hbefore : before.reply = .ok (.text (Precise.format x digits))) (count : Nat)
    (hok : ∀ outcome ∈ calculator.outcomes (List.replicate count .expand), outcome.reply.isOk) :
    ∃ y, ((before :: calculator.outcomes (List.replicate count .expand)).getLast?.map
          Outcome.reply) =
        some (.ok (.text (Precise.format y (digits + count * calculator.digitStep)))) ∧
      (calculator.after (List.replicate count .expand)).StandsAt formula mode
        (digits + count * calculator.digitStep) y := by
  induction count generalizing calculator digits x before with
  | zero =>
      rw [Nat.zero_mul, Nat.add_zero]
      exact ⟨x, congrArg some hbefore, hstands⟩
  | succ count ih =>
      obtain ⟨hfirst, hrest⟩ := List.forall_mem_cons.mp hok
      obtain ⟨y, hreply, hnext⟩ := hstands.expand hfirst
      have hstep : calculator.expand.state.digitStep = calculator.digitStep :=
        (apply_keeps_setting calculator .expand).2
      have hdigits : digits + (count + 1) * calculator.digitStep =
          digits + calculator.digitStep + count * calculator.expand.state.digitStep := by
        rw [hstep, Nat.add_mul, Nat.one_mul, Nat.add_assoc, Nat.add_comm calculator.digitStep]
      rw [List.replicate_succ, outcomes, List.getLast?_cons_cons, after, hdigits]
      exact ih hnext hreply hrest

/-- An evaluation and the expansions behind it, if all succeed, stand at the initial digits and as
many steps more. -/
theorem exists_standsAt (calculator : PreciseCalculator) {given : Datum} {count : Nat}
    (hok : ∀ outcome ∈ calculator.outcomes
      (.evaluate formula given :: List.replicate count .expand), outcome.reply.isOk) :
    ∃ mode x, AngleMode.ofDatum given = .ok mode ∧
      (calculator.outcomes
          (.evaluate formula given :: List.replicate count .expand)).getLast?.map Outcome.reply =
        some (.ok (.text (Precise.format x
          (calculator.initialDigits + count * calculator.digitStep)))) ∧
      (calculator.after (.evaluate formula given :: List.replicate count .expand)).StandsAt formula
        mode (calculator.initialDigits + count * calculator.digitStep) x := by
  obtain ⟨hevaluate, hexpansions⟩ := List.forall_mem_cons.mp hok
  obtain ⟨formula', mode, x, hrequested, hreply, hstands⟩ := exists_standsAt_of_apply hevaluate
  obtain ⟨mode', hmode, htried⟩ := map_eq_ok_iff.mp hrequested
  obtain ⟨rfl, rfl⟩ := Prod.mk.inj htried
  obtain ⟨y, hlast, hreached⟩ := hstands.expansions hreply count hexpansions
  rw [(apply_keeps_setting calculator (.evaluate formula given)).2] at hlast hreached
  exact ⟨mode', y, hmode, hlast, hreached⟩

/-! ## The two ways -/

theorem initialDigits_create (initialDigits digitStep : Int) :
    ((create initialDigits digitStep).initialDigits : Int) = max 8 initialDigits := by
  simp only [create, fewestDigits]
  omega

theorem digitStep_create (initialDigits digitStep : Int) :
    ((create initialDigits digitStep).digitStep : Int) = max 8 digitStep := by
  simp only [create, fewestDigits]
  omega

/-- The digits that a number of steps leads to are enough to start from. -/
theorem initialDigits_create_of_steps (initialDigits digitStep otherStep : Int) (count : Nat) :
    let started := create initialDigits digitStep
    let digits := max 8 initialDigits + count * max 8 digitStep
    (started.initialDigits + count * started.digitStep : Nat) = digits ∧
      started.initialDigits + count * started.digitStep =
        (create digits otherStep).initialDigits := by
  intro started digits
  have hdigits : (started.initialDigits + count * started.digitStep : Nat) = digits := by
    push_cast
    rw [initialDigits_create, digitStep_create]
  have hfew : 8 ≤ digits := by
    have hsteps : 0 ≤ count * max 8 digitStep :=
      Int.mul_nonneg (Int.natCast_nonneg count) (by omega)
    omega
  refine ⟨hdigits, ?_⟩
  have hcreate := initialDigits_create digits otherStep
  omega

/-- An evaluation and the expansions behind it, if all succeed, end with the text and the value of
a calculator that is given the digits at once, and work with as many digits as that. What the first
calculator did before, failures included, and the step of the second one make no difference. -/
theorem expansions_reach_evaluation (initialDigits digitStep otherStep : Int)
    (history : List Command) (formula : String) (given : Datum) (count : Nat)
    (hok : ∀ outcome ∈ ((create initialDigits digitStep).after history).outcomes
      (.evaluate formula given :: List.replicate count .expand), outcome.reply.isOk) :
    let calculator := (create initialDigits digitStep).after history
    let calls := Command.evaluate formula given :: List.replicate count .expand
    let digits := max 8 initialDigits + count * max 8 digitStep
    let fresh := (create digits otherStep).evaluate formula given
    ∃ text x,
      (calculator.outcomes calls).getLast?.map Outcome.reply = some (.ok (.text text)) ∧
      fresh.reply = .ok (.text text) ∧
      (calculator.after calls).lastValue = some x ∧
      fresh.state.lastValue = some x ∧
      (calculator.after calls).workingDigits = digits ∧
      fresh.state.workingDigits = digits := by
  intro calculator calls digits fresh
  obtain ⟨hdigits, hcreate⟩ :=
    initialDigits_create_of_steps initialDigits digitStep otherStep count
  obtain ⟨hinitial, hstep⟩ := after_keeps_setting (create initialDigits digitStep) history
  obtain ⟨mode, x, hmode, hlast, hreached⟩ := exists_standsAt calculator hok
  rw [hinitial, hstep, hcreate] at hlast hreached
  obtain ⟨hfresh, hstands⟩ := standsAt_evaluate hmode hreached.value
  rw [hcreate] at hdigits
  exact ⟨_, x, hlast, hfresh, hreached.lastValue, hstands.lastValue,
    (congrArg Int.ofNat hreached.workingDigits).trans hdigits,
    (congrArg Int.ofNat hstands.workingDigits).trans hdigits⟩

/-- Neither an expansion without a formula, nor a division by zero, nor an unknown mode before it
changes what a third with two steps more is. -/
theorem expansions_reach_evaluation_of_one_third :
    (∀ outcome ∈ ((create 3 10).after [.expand, .evaluate "1/7" (.text "rad"), .expand,
        .evaluate "1/0" (.text "rad"), .evaluate "2" (.text "grad")]).outcomes
        (.evaluate "1/3" (.text "deg") :: List.replicate 2 .expand), outcome.reply.isOk) ∧
      ∃ text x,
        (((create 3 10).after [.expand, .evaluate "1/7" (.text "rad"), .expand,
          .evaluate "1/0" (.text "rad"), .evaluate "2" (.text "grad")]).outcomes
          [.evaluate "1/3" (.text "deg"), .expand, .expand]).getLast?.map Outcome.reply =
          some (.ok (.text text)) ∧
        ((create 28 24).evaluate "1/3" (.text "deg")).reply = .ok (.text text) ∧
        ((create 28 24).evaluate "1/3" (.text "deg")).state.lastValue = some x := by
  have hok : ∀ outcome ∈ ((create 3 10).after [.expand, .evaluate "1/7" (.text "rad"), .expand,
      .evaluate "1/0" (.text "rad"), .evaluate "2" (.text "grad")]).outcomes
      (.evaluate "1/3" (.text "deg") :: List.replicate 2 .expand), outcome.reply.isOk := by
    decide +kernel
  obtain ⟨text, x, hlast, hreply, -, hvalue, -⟩ :=
    expansions_reach_evaluation 3 10 24 _ "1/3" (.text "deg") 2 hok
  exact ⟨hok, text, x, hlast, hreply, hvalue⟩

end SciCalc.PreciseCalculator
