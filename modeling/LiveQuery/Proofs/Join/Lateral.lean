import LiveQuery.Proofs.Thinning

/-!
# Lateral sources with the same rows everywhere

A lateral source may have other rows for each combination of the rows before it, so no row of it can
be said to join nothing. Where its rows are the same everywhere after all, a join that reads them
over and over makes the same of them as one that is given them, but for the rows that join nothing.

**Results.** `JoinPlan.enumerate_lateral`.
-/

namespace LiveQuery

/-- The kind of join that does not keep the rows that join nothing. -/
def JoinKind.inward : JoinKind → JoinKind
  | .right => .inner
  | .full => .left
  | kind => kind

/-- The step without the rows of its source that join nothing. -/
def JoinStep.inward (step : JoinStep) : JoinStep :=
  { step with source := { step.source with join := step.source.join.map JoinKind.inward } }

/-- The join without the rows of the source at a position that join nothing. -/
def JoinPlan.inwardAt (joins : JoinPlan) (position : Nat) : JoinPlan :=
  { joins with steps := joins.steps.modify position JoinStep.inward }

namespace JoinStep

variable {step : JoinStep}

@[simp] theorem keepsLeft_inward : step.inward.keepsLeft = step.keepsLeft := by
  unfold keepsLeft inward
  cases step.source.join with
  | none => rfl
  | some kind => cases kind <;> rfl

@[simp] theorem keepsRight_inward : step.inward.keepsRight = false := by
  unfold keepsRight inward
  cases step.source.join with
  | none => rfl
  | some kind => cases kind <;> rfl

theorem inward_of_keepsRight (h : step.keepsRight = false) : step.inward = step := by
  obtain ⟨⟨id, name, origin, join⟩, condition, lateral⟩ := step
  cases join with
  | none => rfl
  | some kind =>
      cases kind with
      | inner => rfl
      | left => rfl
      | right => cases h
      | full => cases h

end JoinStep

namespace JoinPlan

variable {ev : Evaluator} {body : BodyId} {outer : List Frame} {steps : List JoinStep}
  {step : JoinStep} {position : Nat} {rows : Rows}

theorem inwardAt_of_keepsRight {joins : JoinPlan} (hstep : joins.steps[position]? = some step)
    (h : step.keepsRight = false) : joins.inwardAt position = joins := by
  have hsteps : joins.steps.modify position JoinStep.inward = joins.steps := by
    refine List.ext_getElem? fun i => ?_
    rw [List.getElem?_modify]
    split
    next hi =>
      subst hi
      rw [hstep]
      exact congrArg some (JoinStep.inward_of_keepsRight h)
    · simp
  rw [inwardAt, hsteps]

/-! ## One step -/

theorem matching_inward (t : PartialTuple) (entries : List (Key × Row)) :
    matching ev body outer step.inward t entries = matching ev body outer step t entries := by
  induction entries with
  | nil => rfl
  | cons entry rest ih =>
      simp only [matching, ih]
      rfl

/-- Rows that are read for each tuple join as if they were given. -/
theorem extendAll_inward (hrows : ∀ env, ev.inputs.rows step.source (frames body outer env) = .ok rows)
    (tuples : List PartialTuple) :
    extendAll ev body outer step.inward (some rows) tuples
      = extendAll ev body outer step none tuples := by
  induction tuples with
  | nil => rfl
  | cons t rest ih =>
      simp only [extendAll, ih, matching_inward, hrows, extended, JoinStep.keepsLeft_inward]
      rfl

theorem runStep_inward (hrows : ∀ env, ev.inputs.rows step.source (frames body outer env) = .ok rows)
    (tuples : List PartialTuple) :
    runStep ev body outer step.inward position (some rows) tuples
      = runStep ev body outer step position none tuples := by
  simp only [runStep, extendAll_inward hrows, JoinStep.keepsRight_inward]

/-! ## All steps -/

theorem sharedRows_of_ne {start : Nat} (h : position ≠ start) :
    sharedRows ev outer (some (position, rows)) step start = sharedRows ev outer none step start := by
  simp only [sharedRows, if_neg h]

/-- After its position, what is given makes no difference. -/
theorem runSteps_given_before {start : Nat} (hstart : position < start)
    (tuples : List PartialTuple) :
    runSteps ev body outer (some (position, rows)) start tuples steps
      = runSteps ev body outer none start tuples steps := by
  induction steps generalizing start tuples with
  | nil => rfl
  | cons step steps ih =>
      simp only [runSteps, sharedRows_of_ne (Nat.ne_of_lt hstart), ih (Nat.lt_succ_of_lt hstart)]

theorem runSteps_given {start i : Nat} (hposition : position = start + i)
    (hstep : steps[i]? = some step) (hlateral : step.lateral = false)
    (hrows : ev.inputs.rows step.source outer = .ok rows) (tuples : List PartialTuple) :
    runSteps ev body outer (some (position, rows)) start tuples steps
      = runSteps ev body outer none start tuples steps := by
  induction steps generalizing start i tuples with
  | nil => cases hstep
  | cons first steps ih =>
      cases i with
      | zero =>
          cases hstep
          have hgiven : sharedRows ev outer (some (position, rows)) step start
              = sharedRows ev outer none step start := by
            simp only [sharedRows, hposition, Nat.add_zero, if_pos, hlateral, hrows,
              Bool.false_eq_true, if_false]
            rfl
          have hstart : position < start + 1 := by omega
          simp only [runSteps, hgiven, runSteps_given_before hstart]
      | succ i =>
          have hne : position ≠ start := by omega
          have hposition' : position = start + 1 + i := by omega
          simp only [runSteps, sharedRows_of_ne hne, ih hposition' hstep]

theorem runSteps_lateral {start i : Nat} (hposition : position = start + i)
    (hstep : steps[i]? = some step) (hlateral : step.lateral = true)
    (hrows : ∀ env, ev.inputs.rows step.source (frames body outer env) = .ok rows)
    (tuples : List PartialTuple) :
    runSteps ev body outer (some (position, rows)) start tuples (steps.modify i JoinStep.inward)
      = runSteps ev body outer none start tuples steps := by
  induction steps generalizing start i tuples with
  | nil => cases hstep
  | cons first steps ih =>
      cases i with
      | zero =>
          cases hstep
          have hgiven : sharedRows ev outer (some (position, rows)) step.inward start
              = .ok (some rows) := by
            simp only [sharedRows, hposition, Nat.add_zero, if_pos]
          have hnone : sharedRows ev outer none step start = .ok none := by
            simp only [sharedRows, hlateral, if_pos]
          simp only [List.modify_zero_cons, runSteps, hgiven, hnone]
          change (runStep ev body outer step.inward start (some rows) tuples >>= _)
            = (runStep ev body outer step start none tuples >>= _)
          rw [runStep_inward hrows]
          refine bind_congr fun tuples => ?_
          exact runSteps_given_before (by omega) tuples
      | succ i =>
          have hne : position ≠ start := by omega
          have hposition' : position = start + 1 + i := by omega
          simp only [List.modify_succ_cons, runSteps, sharedRows_of_ne hne, ih hposition' hstep]

/-- A join reads the rows of a source that is not lateral as if they were given. -/
theorem enumerate_given {joins : JoinPlan} (hstep : joins.steps[position]? = some step)
    (hlateral : step.lateral = false) (hrows : ev.inputs.rows step.source outer = .ok rows) :
    joins.enumerate ev outer none = joins.enumerate ev outer (some (position, rows)) := by
  have hrun : runSteps ev joins.body outer (some (position, rows)) 0 [{}] joins.steps
      = runSteps ev joins.body outer none 0 [{}] joins.steps :=
    runSteps_given (Nat.zero_add position).symm hstep hlateral hrows [{}]
  simp only [enumerate, hrun]

/-- A join that reads the same rows of a lateral source everywhere makes the same tuples as one that
is given them and drops those that join nothing. -/
theorem enumerate_lateral {joins : JoinPlan} (hstep : joins.steps[position]? = some step)
    (hlateral : step.lateral = true)
    (hrows : ∀ env, ev.inputs.rows step.source (frames joins.body outer env) = .ok rows) :
    joins.enumerate ev outer none
      = (joins.inwardAt position).enumerate ev outer (some (position, rows)) := by
  simp only [enumerate, inwardAt,
    runSteps_lateral (Nat.zero_add position).symm hstep hlateral hrows [{}]]

end JoinPlan

end LiveQuery
