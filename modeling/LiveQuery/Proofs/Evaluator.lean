import LiveQuery.Proofs.Operation
import LiveQuery.Proofs.Plan.Occurrences
import LiveQuery.View.Projection

/-!
# What a value depends on

An expression reads what is bound to the aliases of its references, the values of its aggregates
and the output of its subqueries, and nothing else. So evaluators of one plan that see the same
output of the subqueries of a body give its expressions the same values; without subqueries they
always do.

**Results.** `Evaluator.Sees.eval_eq`, and the same for all that a view makes of a tuple or a group;
`Evaluator.Agrees.sees`.
-/

namespace LiveQuery

/-! ## Aliases -/

theorem Body.position?_eq_none {body : Body} {name : String} (h : body.binds name = false) :
    body.position? name = none := by
  rw [Body.binds, List.any_eq_false] at h
  rw [Body.position?, List.findIdx?_eq_none_iff]
  intro source hmem
  exact eq_false_of_ne_true (h source hmem)

theorem Body.binds_of_position?_eq_none {body : Body} {name : String}
    (h : body.position? name = none) : body.binds name = false := by
  rw [Body.position?, List.findIdx?_eq_none_iff] at h
  rw [Body.binds, List.any_eq_false]
  exact fun source hmem => ne_true_of_eq_false (h source hmem)

/-- Where aliases are bound once, an alias stands for its source. -/
theorem Body.position?_of_nodup {body : Body} (hnodup : (body.sources.map Source.name).Nodup)
    {i : Nat} {source : Source} (hi : body.sources[i]? = some source) :
    body.position? source.name = some i := by
  rw [Body.position?, List.findIdx?_eq_some_iff_getElem]
  obtain ⟨hlt, hget⟩ := List.getElem?_eq_some_iff.1 hi
  refine ⟨hlt, by rw [hget]; exact decide_eq_true rfl, fun j hj hname => ?_⟩
  have happart := List.pairwise_iff_getElem.1 hnodup j i (by rw [List.length_map]; omega)
    (by rw [List.length_map]; exact hlt) hj
  rw [List.getElem_map, List.getElem_map, hget] at happart
  exact happart (of_decide_eq_true hname)

/-- An alias that no frame inside binds stands for what the frame binds to it. -/
theorem Evaluator.bound_append (ev : Evaluator) {inner outer : List Frame} {frame : Frame}
    {name : String} {position : Nat}
    (hinner : ∀ f ∈ inner, (ev.plan.body f.body).binds name = false)
    (hframe : (ev.plan.body frame.body).position? name = some position) :
    ev.bound name (inner ++ frame :: outer) = .ok (frame.env.getD position .undefined) := by
  induction inner with
  | nil =>
      rw [List.nil_append, Evaluator.bound, hframe]
  | cons f rest ih =>
      rw [List.cons_append, Evaluator.bound,
        Body.position?_eq_none (hinner f List.mem_cons_self)]
      exact ih fun f hf => hinner f (List.mem_cons_of_mem _ hf)

/-! ## Expressions -/

namespace Evaluator

section

variable {ev ev' : Evaluator} {frames frames' : List Frame} {es : List Expr}

theorem bound_eq (hplan : ev.plan = ev'.plan) (name : String) (frames : List Frame) :
    ev.bound name frames = ev'.bound name frames := by
  induction frames with
  | nil => rfl
  | cons frame outer ih =>
      unfold bound
      rw [hplan, ih]

theorem descend_eq (hpolicy : ev.policy = ev'.policy) (path : Path) (value : Scalar)
    (fields : List String) : ev.descend path value fields = ev'.descend path value fields := by
  induction fields generalizing path value with
  | nil => rfl
  | cons field rest ih =>
      unfold descend
      simp only [hpolicy, ih]

theorem applied_eq (hpolicy : ev.policy = ev'.policy) (function : Function)
    (values : List Scalar) : ev.applied function values = ev'.applied function values := by
  unfold applied
  rw [hpolicy]

/-- Two evaluators, each in frames of its own, see the same of what some expressions read. -/
structure Sees (ev : Evaluator) (frames : List Frame) (ev' : Evaluator) (frames' : List Frame)
    (es : List Expr) : Prop where
  policy : ev.policy = ev'.policy
  references : ∀ id path, .reference id path ∈ es →
    ev.bound path.base frames = ev'.bound path.base frames'
  aggregates : ∀ id function args, .aggregate id function args ∈ es →
    aggregateValue frames (.aggregate id function args)
      = aggregateValue frames' (.aggregate id function args)
  subqueries : ∀ id sub, .subquery id sub ∈ es →
    ev.inputs.subquery sub frames = ev'.inputs.subquery sub frames'

namespace Sees

mutual

theorem eval_eq (h : ev.Sees frames ev' frames' es) (e : Expr) (he : e.subterms ⊆ es) :
    ev.eval frames e = ev'.eval frames' e := by
  match e with
  | .literal id value => rfl
  | .reference id path =>
      simp only [eval, lookup]
      rw [h.references id path (he List.mem_cons_self)]
      simp only [descend_eq h.policy]
  | .aggregate id function args =>
      simp only [eval]
      exact h.aggregates id function args (he List.mem_cons_self)
  | .subquery id sub =>
      simp only [eval]
      rw [h.subqueries id sub (he List.mem_cons_self)]
  | .call id function args =>
      have hargs : Expr.subtermsOf args ⊆ es := fun x hx => he (List.mem_cons_of_mem _ hx)
      cases function <;>
        simp only [eval, h.firstWhere_eq _ args hargs, h.evalAll_eq args hargs,
          applied_eq h.policy]

theorem evalAll_eq (h : ev.Sees frames ev' frames' es) (exprs : List Expr)
    (he : Expr.subtermsOf exprs ⊆ es) : ev.evalAll frames exprs = ev'.evalAll frames' exprs := by
  match exprs with
  | [] => rfl
  | e :: rest =>
      simp only [evalAll]
      rw [h.eval_eq e fun x hx => he (List.mem_append_left _ hx),
        h.evalAll_eq rest fun x hx => he (List.mem_append_right _ hx)]

theorem firstWhere_eq (h : ev.Sees frames ev' frames' es) (p : Scalar → Bool) (exprs : List Expr)
    (he : Expr.subtermsOf exprs ⊆ es) :
    ev.firstWhere frames p exprs = ev'.firstWhere frames' p exprs := by
  match exprs with
  | [] => rfl
  | e :: rest =>
      simp only [firstWhere]
      rw [h.eval_eq e fun x hx => he (List.mem_append_left _ hx),
        h.firstWhere_eq p rest fun x hx => he (List.mem_append_right _ hx)]

end

theorem admits_eq (h : ev.Sees frames ev' frames' es) (cond : Option Expr)
    (hcond : Expr.subtermsOf cond.toList ⊆ es) :
    ev.admits frames cond = ev'.admits frames' cond := by
  cases cond with
  | none => rfl
  | some cond =>
      simp only [admits, holds]
      rw [h.eval_eq cond fun x hx => hcond (List.mem_append_left _ hx)]

theorem projectFields_eq (h : ev.Sees frames ev' frames' es) (row : Row)
    (items : List SelectField) (he : Expr.subtermsOf (items.map SelectField.expr) ⊆ es) :
    ev.projectFields frames row items = ev'.projectFields frames' row items := by
  induction items generalizing row with
  | nil => rfl
  | cons item rest ih =>
      have hrest : Expr.subtermsOf (rest.map SelectField.expr) ⊆ es :=
        fun x hx => he (List.mem_append_right _ hx)
      have hitem : item.expr.subterms ⊆ es := fun x hx => he (List.mem_append_left _ hx)
      cases item with
      | named name e => simp only [projectFields, h.eval_eq e hitem, ih _ hrest]
      | spread e => simp only [projectFields, h.eval_eq e hitem, ih _ hrest]

theorem project_eq (h : ev.Sees frames ev' frames' es) (body : Body)
    (he : Expr.subtermsOf (body.selectionExprs ++ body.orderTerms.map OrderTerm.expr) ⊆ es) :
    ev.project frames body = ev'.project frames' body := by
  rw [Expr.subtermsOf_append] at he
  have horder := h.evalAll_eq (body.orderTerms.map OrderTerm.expr)
    fun x hx => he (List.mem_append_right _ hx)
  have hselection : Expr.subtermsOf body.selectionExprs ⊆ es :=
    fun x hx => he (List.mem_append_left _ hx)
  have hrow : ev.projectRow frames body.selection = ev'.projectRow frames' body.selection := by
    unfold Body.selectionExprs at hselection
    cases hsel : body.selection with
    | none => rfl
    | some selection =>
        rw [hsel] at hselection
        cases selection with
        | fields items => exact h.projectFields_eq .nil items hselection
        | value e =>
            simp only [projectRow]
            rw [h.eval_eq e fun x hx => hselection (List.mem_append_left _ hx)]
  unfold project
  rw [hrow, horder]

theorem aggregated_eq (h : ev.Sees frames ev' frames' es) (e : Expr) (he : e.subterms ⊆ es) :
    ev.aggregated frames e = ev'.aggregated frames' e := by
  cases e with
  | aggregate id function args =>
      cases args with
      | nil => rfl
      | cons arg rest =>
          simp only [aggregated]
          exact h.eval_eq arg fun x hx =>
            he (List.mem_cons_of_mem _ (List.mem_append_left _ hx))
  | _ => rfl

theorem aggregatedAll_eq (h : ev.Sees frames ev' frames' es) (exprs : List Expr)
    (he : Expr.subtermsOf exprs ⊆ es) :
    ev.aggregatedAll frames exprs = ev'.aggregatedAll frames' exprs := by
  induction exprs with
  | nil => rfl
  | cons e rest ih =>
      simp only [aggregatedAll]
      rw [h.aggregated_eq e fun x hx => he (List.mem_append_left _ hx),
        ih fun x hx => he (List.mem_append_right _ hx)]

end Sees

end

/-- Two evaluators see the same in all frames of a body, each with outer frames of its own. -/
def SeesWithin (ev : Evaluator) (outer : List Frame) (ev' : Evaluator) (outer' : List Frame)
    (body : BodyId) (es : List Expr) : Prop :=
  ∀ frame : Frame, frame.body = body → ev.Sees (frame :: outer) ev' (frame :: outer') es

/-- Each aggregate folds one value of a tuple. -/
theorem length_aggregatedAll {ev : Evaluator} {frames : List Frame} {exprs : List Expr}
    {values : List Scalar}
    (h : ev.aggregatedAll frames exprs = .ok values) : values.length = exprs.length := by
  induction exprs generalizing values with
  | nil =>
      cases h
      rfl
  | cons e rest ih =>
      obtain ⟨value, _, h⟩ := Except.bind_eq_ok.1 h
      obtain ⟨others, hothers, h⟩ := Except.bind_eq_ok.1 h
      cases h
      rw [List.length_cons, List.length_cons, ih hothers]

/-! ## Evaluators that agree -/

/-- Evaluators that see the same output of the subqueries among some expressions. -/
structure Agrees (ev ev' : Evaluator) (es : List Expr) : Prop where
  plan : ev.plan = ev'.plan
  policy : ev.policy = ev'.policy
  subqueries : ∀ id sub, .subquery id sub ∈ es →
    ∀ frames, ev.inputs.subquery sub frames = ev'.inputs.subquery sub frames

theorem Agrees.refl (ev : Evaluator) (es : List Expr) : ev.Agrees ev es :=
  ⟨rfl, rfl, fun _ _ _ _ => rfl⟩

theorem Agrees.symm {ev ev' : Evaluator} {es : List Expr} (h : ev.Agrees ev' es) :
    ev'.Agrees ev es :=
  ⟨h.plan.symm, h.policy.symm, fun id sub hmem frames => (h.subqueries id sub hmem frames).symm⟩

theorem Agrees.mono {ev ev' : Evaluator} {es es' : List Expr} (h : ev.Agrees ev' es)
    (hes : es' ⊆ es) : ev.Agrees ev' es' :=
  ⟨h.plan, h.policy, fun id sub hmem => h.subqueries id sub (hes hmem)⟩

namespace Agrees

variable {ev ev' : Evaluator} {es : List Expr}

theorem sees (h : ev.Agrees ev' es) (frames : List Frame) : ev.Sees frames ev' frames es where
  policy := h.policy
  references _ path _ := bound_eq h.plan path.base frames
  aggregates _ _ _ _ := rfl
  subqueries id sub hmem := h.subqueries id sub hmem frames

theorem seesWithin (h : ev.Agrees ev' es) (outer : List Frame) (body : BodyId) :
    ev.SeesWithin outer ev' outer body es :=
  fun frame _ => h.sees (frame :: outer)

theorem admits_eq (h : ev.Agrees ev' es) (frames : List Frame) (cond : Option Expr)
    (hcond : Expr.subtermsOf cond.toList ⊆ es) :
    ev.admits frames cond = ev'.admits frames cond :=
  (h.sees frames).admits_eq cond hcond

end Agrees

end Evaluator

end LiveQuery
