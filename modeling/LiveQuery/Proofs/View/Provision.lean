import LiveQuery.Proofs.Failures

/-!
# Views that have their aggregates

An aggregate gets its value from the group that is put out, which has one for each aggregate that
the body computes. So where these are all aggregates of the body, none is missing: outside of the
selection and of the conditions on groups no aggregate is evaluated.

**Results.** `Blueprint.Fed.provided_stagedRow`: rows are put out that have their aggregates.
`Blueprint.Fed.evaluates_grouping`: the upkeep of a view misses none.
-/

namespace LiveQuery

/-- An error that is not about a missing aggregate. -/
def EvalError.Other (error : EvalError) : Prop :=
  ∀ name, error ≠ .missingAggregate name

theorem EvalError.other_of_ordinary (error : EvalError) (h : error.Ordinary) : error.Other :=
  fun _ heq => by
    rw [heq] at h
    exact h

namespace Evaluator

/-- Among given values there is one for each of as many numbers. -/
theorem exists_lookup_zip {ids : List ExprId} {values : List Scalar} {id : ExprId} (hid : id ∈ ids)
    (hlength : values.length = ids.length) : ∃ value, (ids.zip values).lookup id = some value := by
  have hkeys : id ∈ (ids.zip values).map Prod.fst := by
    rwa [List.map_fst_zip (Nat.le_of_eq hlength.symm)]
  obtain ⟨entry, hentry, rfl⟩ := List.mem_map.1 hkeys
  cases hlookup : (ids.zip values).lookup entry.1 with
  | some value => exact ⟨value, rfl⟩
  | none =>
      have hother := List.lookup_eq_none_iff.1 hlookup entry hentry
      rw [bne_self_eq_false] at hother
      cases hother

end Evaluator

/-! ## Blueprints -/

/-- The aggregates of a body stand where groups are put out, and the body computes them. -/
structure Blueprint.Grouping (b : Blueprint) : Prop where
  listed : ∀ e ∈ Expr.subtermsOf (b.body.selectionExprs ++ b.body.having.toList),
    e.isAggregate = true → e ∈ b.aggregates
  grouped : b.grouped = b.body.isGrouped
  steps : ∀ step ∈ b.joins.steps, ∀ e ∈ Expr.subtermsOf step.condition.toList,
    e.isAggregate = false
  filter : ∀ e ∈ Expr.subtermsOf b.joins.filter.toList, e.isAggregate = false
  keys : ∀ e ∈ Expr.subtermsOf b.body.groupExprs, e.isAggregate = false
  order : ∀ e ∈ Expr.subtermsOf (b.body.orderTerms.map OrderTerm.expr), e.isAggregate = false
  folded : ∀ e ∈ b.aggregates, ∀ x ∈ Expr.subtermsOf e.children, x.isAggregate = false

namespace Blueprint

variable {b : Blueprint} {ev : Evaluator}

namespace Fed

/-- Where no aggregate is, the frames do not matter. -/
theorem provides_none (h : b.Fed EvalError.Other ev) {es : List Expr} (hes : es ⊆ b.occurring)
    (hno : ∀ e ∈ es, e.isAggregate = false) (frames : List Frame) :
    ev.Provides EvalError.Other frames es :=
  h.provides hes fun e he hagg => by
    rw [hno e he] at hagg
    cases hagg

variable (h : b.Fed EvalError.Other ev) (hb : b.Grouping) (outer : List Frame)

include h hb

theorem provided_tuples (fixed : Option (Nat × Rows)) :
    Provided EvalError.Other (b.joins.enumerate ev outer fixed) := by
  refine h.provided_enumerate (h.provides_none ?_ fun e he => ?_)
    (h.provides_none b.occurring_of_filter hb.filter) outer fixed
  · exact Expr.subtermsOf_subset fun e he => by simp [he]
  · obtain ⟨top, htop, he⟩ := Expr.mem_subtermsOf.1 he
    obtain ⟨step, hstep, htop⟩ := List.mem_flatMap.1 htop
    exact hb.steps step hstep e (Expr.mem_subtermsOf.2 ⟨top, htop, he⟩)

theorem provided_groupKey (env : List Scalar) :
    Provided EvalError.Other (b.groupKey ev outer env) := by
  have hkeys := h.provides_none
    (b.occurring_of_expressions fun e he => by simp [Body.expressions, he])
    hb.keys (b.frames outer env)
  exact (hkeys.provided_evalAll _ (List.Subset.refl _)).bind fun _ _ => .ok _

/-- What aggregates fold has no aggregates in it. -/
theorem provides_folded (frames : List Frame) :
    ev.Provides EvalError.Other frames
      (b.aggregates.flatMap fun e => Expr.subtermsOf e.children) := by
  refine h.provides_none (fun x hx => ?_) (fun x hx => ?_) frames
  · obtain ⟨e, he, hx⟩ := List.mem_flatMap.1 hx
    refine b.occurring_of_aggregates (Expr.mem_subtermsOf.2 ⟨e, he, ?_⟩)
    rw [Expr.subterms_eq]
    exact List.mem_cons_of_mem _ hx
  · obtain ⟨e, he, hx⟩ := List.mem_flatMap.1 hx
    exact hb.folded e he x hx

/-- In the frames of a group, the selection and the conditions on groups have their aggregates. -/
theorem provides_group {view : View} {group : Group}
    (hgroup : group.states.length = b.aggregates.length) :
    ev.Provides EvalError.Other (b.groupFrames outer view group)
      (Expr.subtermsOf (b.body.selectionExprs ++ b.body.having.toList)) := by
  refine h.provides (b.occurring_of_expressions fun e he => ?_) fun e he hagg => ?_
  · rcases List.mem_append.1 he with he | he <;> simp [Body.expressions, he]
  · have hid : e.id ∈ b.aggregates.map Expr.id := List.mem_map_of_mem (hb.listed e he hagg)
    have hlength : (group.states.map Accumulator.value).length
        = (b.aggregates.map Expr.id).length := by simp [hgroup]
    obtain ⟨value, hvalue⟩ := Evaluator.exists_lookup_zip hid hlength
    unfold Evaluator.aggregateValue groupFrames
    simp only [List.head?_cons, Option.bind_some, hvalue]
    exact .ok value

theorem provided_stagedRow {view : View} (hview : view.Sized b) (key : Key) :
    Provided EvalError.Other (b.stagedRow ev outer view key) := by
  have horder := h.provides_none
    (b.occurring_of_expressions fun e he => by simp [Body.expressions, he]) hb.order
  unfold stagedRow
  by_cases hgrouped : b.grouped = true
  · rw [if_pos hgrouped]
    cases hgroup : view.groups.get? key with
    | none => exact .ok _
    | some group =>
        have hgiven : ev.Provides EvalError.Other (b.groupFrames outer view group) _ :=
          h.provides_group hb outer (hview key group hgroup)
        rw [Expr.subtermsOf_append] at hgiven
        have hadmits := hgiven.provided_admits (List.subset_append_right _ _)
        refine hadmits.bind fun kept _ => ?_
        split
        · exact (Evaluator.Provides.provided_project (hgiven.mono (List.subset_append_left _ _))
            (horder _)).bind fun _ _ => .ok _
        · exact .ok _
  · rw [if_neg hgrouped]
    cases htuple : view.tuples.get? key with
    | none => exact .ok _
    | some bound =>
        -- without groups there is no aggregate in the selection
        have hnone : ∀ e ∈ Expr.subtermsOf b.body.selectionExprs, e.isAggregate = false := by
          intro e he
          obtain ⟨top, htop, he⟩ := Expr.mem_subtermsOf.1 he
          by_contra hagg
          refine hgrouped ?_
          rw [hb.grouped, Body.isGrouped, Bool.or_eq_true, List.any_eq_true]
          exact .inr ⟨top, List.mem_append_left _ htop,
            List.any_eq_true.2 ⟨e, he, by simpa using hagg⟩⟩
        have hselection := h.provides_none
          (b.occurring_of_expressions fun e he => by simp [Body.expressions, he]) hnone
        exact (Evaluator.Provides.provided_project (hselection _) (horder _)).bind fun _ _ => .ok _

/-- The upkeep of a view misses no aggregate. -/
theorem evaluates_grouping : b.Evaluates EvalError.Other ev outer where
  tuples := h.provided_tuples hb outer
  rows step hstep := h.rows step hstep []
  groups := h.provided_groupKey hb outer
  folded env := (h.provides_folded hb (b.frames outer env)).provided_aggregatedAll
    fun e he _ hx => List.mem_flatMap.2 ⟨e, he, hx⟩
  staged _ hview := h.provided_stagedRow hb outer hview

end Fed

end Blueprint

end LiveQuery
