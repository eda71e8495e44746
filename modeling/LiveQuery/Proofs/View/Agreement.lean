import LiveQuery.Proofs.Evaluator
import LiveQuery.View.Upkeep

/-!
# What a view depends on

The upkeep of a view evaluates the expressions of its body and reads the rows of the body's
sources. So two evaluators, each in outer frames of its own, do the same to every view if they see
the same of these.

**Results.** `Blueprint.AlikeWithin.rederive_eq`, and `enumerate_eq` and `stagedRow_eq` for its
parts; `Blueprint.Alike.rederive_eq` in the same frames.
-/

namespace LiveQuery

/-! ## Joins -/

namespace JoinPlan

variable {ev ev' : Evaluator} {es : List Expr} {body : BodyId} {outer outer' : List Frame}

theorem admits_eq (h : ev.SeesWithin outer ev' outer' body es) {cond : Option Expr}
    (hcond : Expr.subtermsOf cond.toList ⊆ es) (env : List Scalar) :
    ev.admits (frames body outer env) cond = ev'.admits (frames body outer' env) cond :=
  (h { body, env } rfl).admits_eq cond hcond

theorem matching_eq (h : ev.SeesWithin outer ev' outer' body es) {step : JoinStep}
    (hcond : Expr.subtermsOf step.condition.toList ⊆ es) (t : PartialTuple)
    (entries : List (Key × Row)) :
    matching ev body outer step t entries = matching ev' body outer' step t entries := by
  induction entries with
  | nil => rfl
  | cons entry rest ih =>
      simp only [matching]
      rw [admits_eq h hcond, ih]

theorem extendAll_eq (h : ev.SeesWithin outer ev' outer' body es) {step : JoinStep}
    (hcond : Expr.subtermsOf step.condition.toList ⊆ es)
    (hrows : ∀ env, ev.inputs.rows step.source (frames body outer env)
      = ev'.inputs.rows step.source (frames body outer' env))
    (shared : Option Rows) (tuples : List PartialTuple) :
    extendAll ev body outer step shared tuples = extendAll ev' body outer' step shared tuples := by
  induction tuples with
  | nil => rfl
  | cons t rest ih =>
      simp only [extendAll]
      rw [ih, hrows]
      simp only [matching_eq h hcond]

theorem runSteps_eq (h : ev.SeesWithin outer ev' outer' body es) {steps : List JoinStep}
    (hcond : ∀ step ∈ steps, Expr.subtermsOf step.condition.toList ⊆ es)
    (hrows : ∀ step ∈ steps, ∀ env, ev.inputs.rows step.source (frames body outer env)
      = ev'.inputs.rows step.source (frames body outer' env))
    (hshared : ∀ step ∈ steps, step.lateral = false →
      ev.inputs.rows step.source outer = ev'.inputs.rows step.source outer')
    (fixed : Option (Nat × Rows)) (position : Nat) (tuples : List PartialTuple) :
    runSteps ev body outer fixed position tuples steps
      = runSteps ev' body outer' fixed position tuples steps := by
  induction steps generalizing position tuples with
  | nil => rfl
  | cons step rest ih =>
      obtain ⟨hstep, hrest⟩ := List.forall_mem_cons.1 hcond
      obtain ⟨hrowsStep, hrowsRest⟩ := List.forall_mem_cons.1 hrows
      obtain ⟨hsharedStep, hsharedRest⟩ := List.forall_mem_cons.1 hshared
      have hread : sharedRows ev outer fixed step position
          = sharedRows ev' outer' fixed step position := by
        unfold sharedRows
        cases hlateral : step.lateral with
        | true => rfl
        | false => simp only [hsharedStep hlateral]
      simp only [runSteps, runStep]
      rw [hread]
      simp only [extendAll_eq h hstep hrowsStep, ih hrest hrowsRest hsharedRest]

theorem filtered_eq (h : ev.SeesWithin outer ev' outer' body es) {filter : Option Expr}
    (hfilter : Expr.subtermsOf filter.toList ⊆ es) (tuples : List PartialTuple) :
    filtered ev body outer filter tuples = filtered ev' body outer' filter tuples := by
  induction tuples with
  | nil => rfl
  | cons t rest ih =>
      simp only [filtered]
      rw [admits_eq h hfilter, ih]

end JoinPlan

/-! ## Upkeep -/

theorem takeOutAll_eq {ev ev' : Evaluator} {frames frames' : List Frame} {es : List Expr}
    (h : ev.Sees frames ev' frames' es) (group : Key) {exprs : List Expr}
    (he : Expr.subtermsOf exprs ⊆ es) (states : List Accumulator) :
    takeOutAll ev frames group exprs states = takeOutAll ev' frames' group exprs states := by
  induction exprs generalizing states with
  | nil => rfl
  | cons e rest ih =>
      cases states with
      | nil => rfl
      | cons state states =>
          unfold takeOutAll
          rw [h.aggregated_eq e fun x hx => he (List.mem_append_left _ hx)]
          simp only [ih fun x hx => he (List.mem_append_right _ hx)]

namespace Blueprint

/-- The expressions that the upkeep of a view evaluates, with all below them. -/
def occurring (b : Blueprint) : List Expr :=
  Expr.subtermsOf (b.joins.steps.flatMap (fun step => step.condition.toList)
    ++ b.joins.filter.toList ++ b.body.expressions ++ b.aggregates)

theorem occurring_of_step (b : Blueprint) {step : JoinStep} (hstep : step ∈ b.joins.steps) :
    Expr.subtermsOf step.condition.toList ⊆ b.occurring := by
  refine Expr.subtermsOf_subset fun e he => ?_
  simp only [List.append_assoc, List.mem_append]
  exact .inl (List.mem_flatMap.2 ⟨step, hstep, he⟩)

theorem occurring_of_filter (b : Blueprint) :
    Expr.subtermsOf b.joins.filter.toList ⊆ b.occurring :=
  Expr.subtermsOf_subset fun e he => by simp [he]

theorem occurring_of_expressions (b : Blueprint) {es : List Expr}
    (h : es ⊆ b.body.expressions) : Expr.subtermsOf es ⊆ b.occurring :=
  Expr.subtermsOf_subset fun e he => by simp [h he]

theorem occurring_of_aggregates (b : Blueprint) : Expr.subtermsOf b.aggregates ⊆ b.occurring :=
  Expr.subtermsOf_subset fun e he => by simp [he]

/-- Evaluators that do the same to a view. -/
structure Alike (b : Blueprint) (ev ev' : Evaluator) : Prop where
  values : ev.Agrees ev' b.occurring
  rows : ∀ step ∈ b.joins.steps, ∀ frames,
    ev.inputs.rows step.source frames = ev'.inputs.rows step.source frames

/-- Evaluators that do the same to a view, each in outer frames of its own. -/
structure AlikeWithin (b : Blueprint) (ev : Evaluator) (outer : List Frame) (ev' : Evaluator)
    (outer' : List Frame) : Prop where
  values : ev.SeesWithin outer ev' outer' b.joins.body b.occurring
  rows : ∀ step ∈ b.joins.steps, ∀ env,
    ev.inputs.rows step.source (JoinPlan.frames b.joins.body outer env)
      = ev'.inputs.rows step.source (JoinPlan.frames b.joins.body outer' env)
  shared : ∀ step ∈ b.joins.steps, step.lateral = false →
    ev.inputs.rows step.source outer = ev'.inputs.rows step.source outer'

section Values

variable {b : Blueprint} {ev ev' : Evaluator} {outer outer' : List Frame}
  (h : ev.SeesWithin outer ev' outer' b.joins.body b.occurring)

include h

theorem groupKey_eq : b.groupKey ev outer = b.groupKey ev' outer' := by
  funext env
  unfold groupKey
  have hframe := h { body := b.joins.body, env } rfl
  rw [frames, frames, hframe.evalAll_eq _ (b.occurring_of_expressions fun e he => by
    simp [Body.expressions, he])]

theorem aggregatedAll_eq (env : List Scalar) :
    ev.aggregatedAll (b.frames outer env) b.aggregates
      = ev'.aggregatedAll (b.frames outer' env) b.aggregates :=
  (h { body := b.joins.body, env } rfl).aggregatedAll_eq _ b.occurring_of_aggregates

theorem stagedRow_eq : b.stagedRow ev outer = b.stagedRow ev' outer' := by
  funext view key
  have hproject (frame : Frame) (hbody : frame.body = b.joins.body) :
      ev.project (frame :: outer) b.body = ev'.project (frame :: outer') b.body :=
    (h frame hbody).project_eq _ (b.occurring_of_expressions fun e he => by
      rcases List.mem_append.1 he with he | he <;> simp [Body.expressions, he])
  have hadmits (frame : Frame) (hbody : frame.body = b.joins.body) :
      ev.admits (frame :: outer) b.body.having = ev'.admits (frame :: outer') b.body.having :=
    (h frame hbody).admits_eq _ (b.occurring_of_expressions fun e he => by
      simp [Body.expressions, he])
  unfold stagedRow groupFrames frames
  simp only [hproject, hadmits]

theorem retract_eq : b.retract ev outer = b.retract ev' outer' := by
  funext key
  have hleave : b.leaveGroup ev outer = b.leaveGroup ev' outer' := by
    funext groupKey key env
    have htake (states : List Accumulator) :
        takeOutAll ev (b.frames outer env) groupKey b.aggregates states
          = takeOutAll ev' (b.frames outer' env) groupKey b.aggregates states :=
      takeOutAll_eq (h { body := b.joins.body, env } rfl) _ b.occurring_of_aggregates states
    unfold leaveGroup
    simp only [htake]
  unfold retract
  rw [hleave]

theorem insert_eq : b.insert ev outer = b.insert ev' outer' := by
  funext t
  have henter : b.enterGroup ev outer = b.enterGroup ev' outer' := by
    funext t
    unfold enterGroup
    simp only [groupKey_eq h, aggregatedAll_eq h]
  unfold insert
  rw [henter]

theorem replaceTuples_eq : b.replaceTuples ev outer = b.replaceTuples ev' outer' := by
  funext outdated added
  have hretract : b.retractAll ev outer outdated = b.retractAll ev' outer' outdated := by
    induction outdated with
    | nil => rfl
    | cons key rest ih =>
        unfold retractAll
        rw [ih, retract_eq h]
  have hinsert : b.insertAll ev outer added = b.insertAll ev' outer' added := by
    induction added with
    | nil => rfl
    | cons t rest ih =>
        unfold insertAll
        rw [ih, insert_eq h]
  unfold replaceTuples
  rw [hretract, hinsert]

theorem refresh_eq : b.refresh ev outer = b.refresh ev' outer' := by
  funext touched
  have hstage (keys : List Key) : b.stageAll ev outer keys = b.stageAll ev' outer' keys := by
    induction keys with
    | nil => rfl
    | cons key rest ih =>
        unfold stageAll
        rw [ih, stagedRow_eq h]
  unfold refresh
  simp only [hstage]

end Values

namespace AlikeWithin

variable {b : Blueprint} {ev ev' : Evaluator} {outer outer' : List Frame}

theorem enumerate_eq (h : b.AlikeWithin ev outer ev' outer') (fixed : Option (Nat × Rows)) :
    b.joins.enumerate ev outer fixed = b.joins.enumerate ev' outer' fixed := by
  unfold JoinPlan.enumerate
  rw [JoinPlan.runSteps_eq h.values (fun _ => b.occurring_of_step) h.rows h.shared]
  simp only [JoinPlan.filtered_eq h.values b.occurring_of_filter]

theorem rederive_eq (h : b.AlikeWithin ev outer ev' outer') :
    b.rederive ev outer = b.rederive ev' outer' := by
  unfold rederive
  rw [h.enumerate_eq, replaceTuples_eq h.values, refresh_eq h.values]

end AlikeWithin

namespace Alike

variable {b : Blueprint} {ev ev' : Evaluator}

theorem within (h : b.Alike ev ev') (outer : List Frame) : b.AlikeWithin ev outer ev' outer where
  values := h.values.seesWithin outer b.joins.body
  rows step hstep _ := h.rows step hstep _
  shared step hstep _ := h.rows step hstep outer

theorem rederive_eq (h : b.Alike ev ev') (outer : List Frame) :
    b.rederive ev outer = b.rederive ev' outer :=
  (h.within outer).rederive_eq

end Alike

end Blueprint

end LiveQuery
