import LiveQuery.Proofs.View.Agreement

/-!
# How evaluations fail

An evaluation fails with an error of its own, about a field, a function or an alias, or with that of
an aggregate, of a subquery or of a source that it reads. So it fails with allowed errors only if
these do.

**Results.** `Evaluator.Provides.provided_eval` for expressions, `Blueprint.Fed.provided_enumerate`
for the tuples of a body; `Blueprint.Fed.evaluates` for all that the upkeep of a view evaluates.
-/

namespace LiveQuery

/-- An evaluation that fails with allowed errors only. -/
def Provided {α : Type} (F : EvalError → Prop) (x : Except EvalError α) : Prop :=
  ∀ error, x = .error error → F error

/-- An error about a field, a function or an alias. -/
def EvalError.Ordinary : EvalError → Prop
  | .fieldNotFound _ _ => True
  | .typeMismatch _ _ => True
  | .unboundAlias _ => True
  | _ => False

namespace Provided

variable {F : EvalError → Prop} {α β : Type}

theorem ok (a : α) : Provided F (.ok a) :=
  fun _ h => by cases h

theorem error {e : EvalError} (h : F e) : Provided F (.error e : Except EvalError α) :=
  fun _ heq => by cases heq; exact h

theorem bind {x : Except EvalError α} {f : α → Except EvalError β} (hx : Provided F x)
    (hf : ∀ a, x = .ok a → Provided F (f a)) : Provided F (x >>= f) := by
  cases x with
  | error e => exact .error (hx e rfl)
  | ok a => exact hf a rfl

theorem map {x : Except EvalError α} (hx : Provided F x) (f : α → β) : Provided F (f <$> x) := by
  cases x with
  | error e => exact .error (hx e rfl)
  | ok a => exact .ok (f a)

end Provided

/-! ## Values -/

namespace Evaluator

variable {F : EvalError → Prop} {ev : Evaluator} {frames : List Frame} {es : List Expr}

theorem provided_settle (policy : FieldPolicy) {e : EvalError} (h : F e) :
    Provided F (policy.settle e) := by
  cases policy with
  | undefined => exact .ok _
  | strict => exact .error h

section

variable (hF : ∀ error : EvalError, error.Ordinary → F error)

include hF

theorem provided_bound (ev : Evaluator) (name : String) (frames : List Frame) :
    Provided F (ev.bound name frames) := by
  induction frames with
  | nil => exact .error (hF _ trivial)
  | cons frame outer ih =>
      unfold bound
      split
      · exact .ok _
      · exact ih

theorem provided_descend (ev : Evaluator) (path : Path) (value : Scalar) (fields : List String) :
    Provided F (ev.descend path value fields) := by
  induction fields generalizing path value with
  | nil => exact .ok _
  | cons field rest ih =>
      have hmissing : Provided F (ev.policy.settle
          (.fieldNotFound (path.get field).base (path.get field).toText)) :=
        provided_settle _ (hF _ trivial)
      unfold descend
      split
      · split
        · exact ih _ _
        · exact hmissing
      · exact .ok _
      · exact .ok _
      · exact hmissing

theorem provided_lookup (ev : Evaluator) (frames : List Frame) (path : Path) :
    Provided F (ev.lookup frames path) :=
  (provided_bound hF ev path.base frames).bind fun value _ => provided_descend hF ev _ value _

theorem provided_applied (ev : Evaluator) (function : Function) (values : List Scalar) :
    Provided F (ev.applied function values) := by
  unfold applied
  split
  · exact .ok _
  · exact provided_settle _ (hF _ trivial)

end

/-- An aggregate is there, or it is missing. -/
theorem provided_aggregateValue (hmissing : ∀ name, F (.missingAggregate name))
    (frames : List Frame) (e : Expr) : Provided F (aggregateValue frames e) := by
  unfold aggregateValue
  split
  · exact .error (hmissing _)
  · split
    · exact .ok _
    · exact .error (hmissing _)

/-- In given frames, the aggregates and the subqueries among some expressions fail with allowed
errors only, and so may everything else. -/
structure Provides (ev : Evaluator) (F : EvalError → Prop) (frames : List Frame) (es : List Expr) :
    Prop where
  ordinary : ∀ error : EvalError, error.Ordinary → F error
  aggregates : ∀ e ∈ es, e.isAggregate = true → Provided F (aggregateValue frames e)
  subqueries : ∀ id sub, .subquery id sub ∈ es → Provided F (ev.inputs.subquery sub frames)

namespace Provides

theorem mono {es' : List Expr} (h : ev.Provides F frames es) (hes : es' ⊆ es) :
    ev.Provides F frames es' :=
  ⟨h.ordinary, fun e he => h.aggregates e (hes he),
    fun id sub he => h.subqueries id sub (hes he)⟩

mutual

theorem provided_eval (h : ev.Provides F frames es) (e : Expr) (he : e.subterms ⊆ es) :
    Provided F (ev.eval frames e) := by
  match e with
  | .literal id value => exact .ok _
  | .reference id path =>
      simp only [eval]
      exact provided_lookup h.ordinary ev frames path
  | .aggregate id function args =>
      simp only [eval]
      exact h.aggregates _ (he List.mem_cons_self) rfl
  | .subquery id sub =>
      simp only [eval]
      exact (h.subqueries id sub (he List.mem_cons_self)).bind fun _ _ => .ok _
  | .call id function args =>
      have hargs : Expr.subtermsOf args ⊆ es := fun x hx => he (List.mem_cons_of_mem _ hx)
      have hall := h.provided_evalAll args hargs
      have hfirst := fun p => h.provided_firstWhere p args hargs
      cases function <;> simp only [eval] <;> first
        | exact (hfirst _).bind fun _ _ => .ok _
        | exact hall.bind fun _ _ => provided_applied h.ordinary ev _ _

theorem provided_evalAll (h : ev.Provides F frames es) (exprs : List Expr)
    (he : Expr.subtermsOf exprs ⊆ es) : Provided F (ev.evalAll frames exprs) := by
  match exprs with
  | [] => exact .ok _
  | e :: rest =>
      simp only [evalAll]
      refine (h.provided_eval e fun x hx => he (List.mem_append_left _ hx)).bind fun _ _ => ?_
      exact (h.provided_evalAll rest fun x hx => he (List.mem_append_right _ hx)).bind
        fun _ _ => .ok _

theorem provided_firstWhere (h : ev.Provides F frames es) (p : Scalar → Bool) (exprs : List Expr)
    (he : Expr.subtermsOf exprs ⊆ es) : Provided F (ev.firstWhere frames p exprs) := by
  match exprs with
  | [] => exact .ok _
  | e :: rest =>
      simp only [firstWhere]
      refine (h.provided_eval e fun x hx => he (List.mem_append_left _ hx)).bind fun value _ => ?_
      split
      · exact .ok _
      · exact h.provided_firstWhere p rest fun x hx => he (List.mem_append_right _ hx)

end

theorem provided_holds (h : ev.Provides F frames es) {cond : Expr} (hcond : cond.subterms ⊆ es) :
    Provided F (ev.holds frames cond) :=
  (h.provided_eval cond hcond).bind fun _ _ => .ok _

theorem provided_admits (h : ev.Provides F frames es) {cond : Option Expr}
    (hcond : Expr.subtermsOf cond.toList ⊆ es) : Provided F (ev.admits frames cond) := by
  cases cond with
  | none => exact .ok _
  | some cond => exact h.provided_holds fun x hx => hcond (List.mem_append_left _ hx)

theorem provided_projectFields (h : ev.Provides F frames es) (row : Row) (items : List SelectField)
    (he : Expr.subtermsOf (items.map SelectField.expr) ⊆ es) :
    Provided F (ev.projectFields frames row items) := by
  induction items generalizing row with
  | nil => exact .ok _
  | cons item rest ih =>
      have hrest : Expr.subtermsOf (rest.map SelectField.expr) ⊆ es :=
        fun x hx => he (List.mem_append_right _ hx)
      have hitem := h.provided_eval item.expr fun x hx => he (List.mem_append_left _ hx)
      cases item with
      | named name e => exact hitem.bind fun _ _ => ih _ hrest
      | spread e =>
          refine hitem.bind fun value _ => ?_
          split
          · exact ih _ hrest
          · exact ih _ hrest

theorem provided_project {body : Body}
    (hselection : ev.Provides F frames (Expr.subtermsOf body.selectionExprs))
    (horder : ev.Provides F frames (Expr.subtermsOf (body.orderTerms.map OrderTerm.expr))) :
    Provided F (ev.project frames body) := by
  have hrow : Provided F (ev.projectRow frames body.selection) := by
    unfold Body.selectionExprs at hselection
    cases hsel : body.selection with
    | none => exact .ok _
    | some selection =>
        rw [hsel] at hselection
        cases selection with
        | fields items => exact hselection.provided_projectFields .nil items (List.Subset.refl _)
        | value e =>
            refine (hselection.provided_eval e (List.subset_append_left _ _)).bind fun value _ => ?_
            split <;> exact .ok _
  exact hrow.bind fun _ _ =>
    (horder.provided_evalAll _ (List.Subset.refl _)).bind fun _ _ => .ok _

theorem provided_aggregated (h : ev.Provides F frames es) (e : Expr)
    (he : Expr.subtermsOf e.children ⊆ es) : Provided F (ev.aggregated frames e) := by
  unfold aggregated
  split
  · exact h.provided_eval _ fun x hx => he (List.mem_append_left _ hx)
  · exact .ok _

theorem provided_aggregatedAll (h : ev.Provides F frames es) {exprs : List Expr}
    (he : ∀ e ∈ exprs, Expr.subtermsOf e.children ⊆ es) :
    Provided F (ev.aggregatedAll frames exprs) := by
  induction exprs with
  | nil => exact .ok _
  | cons e rest ih =>
      obtain ⟨hfirst, hrest⟩ := List.forall_mem_cons.1 he
      exact (h.provided_aggregated e hfirst).bind fun _ _ => (ih hrest).bind fun _ _ => .ok _

end Provides

end Evaluator

/-! ## Joins -/

namespace JoinPlan

variable {F : EvalError → Prop} {ev : Evaluator} {body : BodyId} {outer : List Frame}
  {es : List Expr} (h : ∀ frames, ev.Provides F frames es)

include h

theorem provided_matching {step : JoinStep} (hcond : Expr.subtermsOf step.condition.toList ⊆ es)
    (t : PartialTuple) (entries : List (Key × Row)) :
    Provided F (matching ev body outer step t entries) := by
  induction entries with
  | nil => exact .ok _
  | cons entry rest ih =>
      exact ((h _).provided_admits hcond).bind fun _ _ => ih.bind fun _ _ => .ok _

theorem provided_extendAll {step : JoinStep} (hcond : Expr.subtermsOf step.condition.toList ⊆ es)
    (hrows : ∀ frames, Provided F (ev.inputs.rows step.source frames)) (shared : Option Rows)
    (tuples : List PartialTuple) : Provided F (extendAll ev body outer step shared tuples) := by
  induction tuples with
  | nil => exact .ok _
  | cons t rest ih =>
      have hmatching : ∀ entries, Provided F (matching ev body outer step t entries) :=
        provided_matching h hcond t
      cases shared with
      | some rows => exact (hmatching rows.entries).bind fun _ _ => ih.bind fun _ _ => .ok _
      | none =>
          exact (hrows _).bind fun rows _ =>
            (hmatching rows.entries).bind fun _ _ => ih.bind fun _ _ => .ok _

theorem provided_runSteps {steps : List JoinStep}
    (hcond : ∀ step ∈ steps, Expr.subtermsOf step.condition.toList ⊆ es)
    (hrows : ∀ step ∈ steps, ∀ frames, Provided F (ev.inputs.rows step.source frames))
    (fixed : Option (Nat × Rows)) (position : Nat) (tuples : List PartialTuple) :
    Provided F (runSteps ev body outer fixed position tuples steps) := by
  induction steps generalizing position tuples with
  | nil => exact .ok _
  | cons step rest ih =>
      obtain ⟨hstep, hrest⟩ := List.forall_mem_cons.1 hcond
      obtain ⟨hrowsStep, hrowsRest⟩ := List.forall_mem_cons.1 hrows
      have hshared : Provided F (sharedRows ev outer fixed step position) := by
        unfold sharedRows
        repeat' split
        · exact .ok _
        · exact .ok _
        · exact (hrowsStep _).map _
        · exact .ok _
        · exact (hrowsStep _).map _
      have hrun : ∀ shared, Provided F (runStep ev body outer step position shared tuples) := by
        intro shared
        unfold runStep
        refine (provided_extendAll h hstep hrowsStep shared tuples).bind fun joined _ => ?_
        obtain ⟨joined, matched⟩ := joined
        dsimp only
        split <;> exact .ok _
      unfold runSteps
      exact hshared.bind fun shared _ => (hrun shared).bind fun _ _ => ih hrest hrowsRest _ _

theorem provided_filtered {filter : Option Expr} (hfilter : Expr.subtermsOf filter.toList ⊆ es)
    (tuples : List PartialTuple) : Provided F (filtered ev body outer filter tuples) := by
  induction tuples with
  | nil => exact .ok _
  | cons t rest ih =>
      exact ((h _).provided_admits hfilter).bind fun _ _ => ih.bind fun _ _ => .ok _

end JoinPlan

/-! ## Bodies -/

/-- What is read of a body's sources and subqueries fails with allowed errors only, and so may
everything else. -/
structure Blueprint.Fed (b : Blueprint) (F : EvalError → Prop) (ev : Evaluator) : Prop where
  ordinary : ∀ error : EvalError, error.Ordinary → F error
  rows : ∀ step ∈ b.joins.steps, ∀ frames, Provided F (ev.inputs.rows step.source frames)
  subqueries : ∀ id sub, .subquery id sub ∈ b.occurring → ∀ frames,
    Provided F (ev.inputs.subquery sub frames)

/-- Each group of a view has a state for each aggregate. -/
def View.Sized (b : Blueprint) (view : View) : Prop :=
  ∀ key group, view.groups.get? key = some group → group.states.length = b.aggregates.length

/-- What the upkeep of a body's views evaluates in given frames fails with allowed errors only. -/
structure Blueprint.Evaluates (b : Blueprint) (F : EvalError → Prop) (ev : Evaluator)
    (outer : List Frame) : Prop where
  tuples : ∀ fixed, Provided F (b.joins.enumerate ev outer fixed)
  rows : ∀ step ∈ b.joins.steps, Provided F (ev.inputs.rows step.source [])
  groups : ∀ env, Provided F (b.groupKey ev outer env)
  folded : ∀ env, Provided F (ev.aggregatedAll (b.frames outer env) b.aggregates)
  staged : ∀ view, view.Sized b → ∀ key, Provided F (b.stagedRow ev outer view key)

/-- Whatever is evaluated, nothing is said of how it fails. -/
theorem Blueprint.Evaluates.of_any (b : Blueprint) (ev : Evaluator) (outer : List Frame) :
    b.Evaluates (fun _ => True) ev outer :=
  ⟨fun _ _ _ => trivial, fun _ _ _ _ => trivial, fun _ _ _ => trivial, fun _ _ _ => trivial,
    fun _ _ _ _ _ => trivial⟩

/-- Tuples are derived from changed rows as all tuples are, once the rows are read. -/
theorem Blueprint.provided_deriveAllChanged {F : EvalError → Prop} {b : Blueprint} {ev : Evaluator}
    (hrows : ∀ step ∈ b.joins.steps, Provided F (ev.inputs.rows step.source []))
    (htuples : ∀ fixed, Provided F (b.joins.enumerate ev [] fixed))
    (changed : List (Nat × List Key)) : Provided F (b.deriveAllChanged ev changed) := by
  induction changed with
  | nil => exact .ok _
  | cons entry rest ih =>
      have hfirst : Provided F (b.deriveChanged ev entry.1 entry.2) := by
        unfold deriveChanged
        split
        · exact .ok _
        next step hstep =>
          exact (hrows step (List.mem_of_getElem? hstep)).bind fun _ _ => htuples _
      exact hfirst.bind fun _ _ => ih.bind fun _ _ => .ok _

namespace Blueprint.Fed

variable {F : EvalError → Prop} {b : Blueprint} {ev : Evaluator} (h : b.Fed F ev)

include h

theorem provides {es : List Expr} (hes : es ⊆ b.occurring) {frames : List Frame}
    (haggregates : ∀ e ∈ es, e.isAggregate = true →
      Provided F (Evaluator.aggregateValue frames e)) : ev.Provides F frames es :=
  ⟨h.ordinary, haggregates, fun id sub hmem => h.subqueries id sub (hes hmem) frames⟩

theorem provided_enumerate
    (hconds : ∀ frames, ev.Provides F frames
      (Expr.subtermsOf (b.joins.steps.flatMap fun step => step.condition.toList)))
    (hfilter : ∀ frames, ev.Provides F frames (Expr.subtermsOf b.joins.filter.toList))
    (outer : List Frame) (fixed : Option (Nat × Rows)) :
    Provided F (b.joins.enumerate ev outer fixed) := by
  refine Provided.bind (JoinPlan.provided_runSteps hconds (fun step hstep => ?_) h.rows _ _ _)
    fun tuples _ => JoinPlan.provided_filtered hfilter (List.Subset.refl _) tuples
  exact Expr.subtermsOf_subset fun e he => List.mem_flatMap.2 ⟨step, hstep, he⟩

/-- Where aggregates may be missing, all expressions of a body may be evaluated anywhere. -/
theorem provides_all (hmissing : ∀ name, F (.missingAggregate name)) (frames : List Frame) :
    ev.Provides F frames b.occurring := by
  exact h.provides (List.Subset.refl _) fun e _ _ =>
    Evaluator.provided_aggregateValue hmissing frames e

theorem evaluates (hmissing : ∀ name, F (.missingAggregate name)) (outer : List Frame) :
    b.Evaluates F ev outer := by
  have hall := h.provides_all hmissing
  have hexpressions {es : List Expr} (hes : es ⊆ b.body.expressions) (frames : List Frame) :
      ev.Provides F frames (Expr.subtermsOf es) :=
    (hall frames).mono (b.occurring_of_expressions hes)
  have hproject (frames : List Frame) : Provided F (ev.project frames b.body) :=
    Evaluator.Provides.provided_project
      (hexpressions (fun e he => by simp [Body.expressions, he]) frames)
      (hexpressions (fun e he => by simp [Body.expressions, he]) frames)
  refine ⟨fun fixed => h.provided_enumerate (fun frames => (hall frames).mono ?_)
    (fun frames => (hall frames).mono b.occurring_of_filter) outer fixed,
    fun step hstep => h.rows step hstep [], fun env => ?_, fun env => ?_, fun view _ key => ?_⟩
  · exact Expr.subtermsOf_subset fun e he => by simp [he]
  · exact ((hexpressions (fun e he => by simp [Body.expressions, he]) _).provided_evalAll _
      (List.Subset.refl _)).bind fun _ _ => .ok _
  · refine (hall _).provided_aggregatedAll fun e he x hx => b.occurring_of_aggregates ?_
    refine Expr.mem_subtermsOf.2 ⟨e, he, ?_⟩
    rw [Expr.subterms_eq]
    exact List.mem_cons_of_mem _ hx
  · unfold stagedRow
    split
    · split
      · exact .ok _
      · refine ((hexpressions (fun e he => by simp [Body.expressions, he]) _).provided_admits
          (List.Subset.refl _)).bind fun kept _ => ?_
        split
        · exact (hproject _).bind fun _ _ => .ok _
        · exact .ok _
    · split
      · exact .ok _
      · exact (hproject _).bind fun _ _ => .ok _

end Blueprint.Fed

end LiveQuery
