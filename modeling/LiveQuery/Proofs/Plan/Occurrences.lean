import LiveQuery.Plan
import Mathlib.Data.List.Basic

/-!
# What occurs in a plan

The expressions that occur in a body are its own ones and all below them, up to the bodies of
subqueries. The numbers of expressions and sources tell them apart.
-/

namespace LiveQuery

theorem mem_of_lookup {α β : Type} [BEq α] [LawfulBEq α] {entries : List (α × β)} {a : α} {b : β}
    (h : entries.lookup a = some b) : (a, b) ∈ entries := by
  obtain ⟨before, after, rfl, _⟩ := List.lookup_eq_some_iff.1 h
  exact List.mem_append_right _ List.mem_cons_self

namespace Expr

theorem mem_subtermsOf {e : Expr} {es : List Expr} :
    e ∈ subtermsOf es ↔ ∃ top ∈ es, e ∈ top.subterms := by
  induction es with
  | nil => simp
  | cons first rest ih => simp [subtermsOf, ih]

theorem subtermsOf_append (es es' : List Expr) :
    subtermsOf (es ++ es') = subtermsOf es ++ subtermsOf es' := by
  induction es with
  | nil => rfl
  | cons first rest ih => simp [subtermsOf, ih]

theorem subtermsOf_subset {es es' : List Expr} (h : es ⊆ es') : subtermsOf es ⊆ subtermsOf es' := by
  intro e he
  obtain ⟨top, htop, he⟩ := mem_subtermsOf.1 he
  exact mem_subtermsOf.2 ⟨top, h htop, he⟩

/-- The subterms of an expression are itself and those of its arguments. -/
theorem subterms_eq (e : Expr) : e.subterms = e :: subtermsOf e.children := by
  cases e <;> simp [subterms, children]

mutual

theorem subset_subterms {e : Expr} (top : Expr) (h : e ∈ top.subterms) :
    e.subterms ⊆ top.subterms := by
  match top with
  | .call id function args =>
      rcases List.mem_cons.1 h with rfl | h
      · exact List.Subset.refl _
      · exact List.Subset.trans (subset_subtermsOf args h) (List.subset_cons_self _ _)
  | .aggregate id function args =>
      rcases List.mem_cons.1 h with rfl | h
      · exact List.Subset.refl _
      · exact List.Subset.trans (subset_subtermsOf args h) (List.subset_cons_self _ _)
  | .literal id value =>
      rw [List.mem_singleton.1 h]
      exact List.Subset.refl _
  | .reference id path =>
      rw [List.mem_singleton.1 h]
      exact List.Subset.refl _
  | .subquery id body =>
      rw [List.mem_singleton.1 h]
      exact List.Subset.refl _

theorem subset_subtermsOf {e : Expr} (tops : List Expr) (h : e ∈ subtermsOf tops) :
    e.subterms ⊆ subtermsOf tops := by
  match tops with
  | first :: rest =>
      rcases List.mem_append.1 h with h | h
      · exact List.Subset.trans (subset_subterms first h) (List.subset_append_left _ _)
      · exact List.Subset.trans (subset_subtermsOf rest h) (List.subset_append_right _ _)

end

end Expr

namespace Body

/-- The expressions that occur in a body. -/
def occurring (body : Body) : List Expr :=
  body.expressions.flatMap Expr.subterms

theorem expressions_subset_occurring (body : Body) : body.expressions ⊆ body.occurring :=
  fun e he => List.mem_flatMap.2 ⟨e, he, e.self_mem_subterms⟩

theorem occurring_of_child {body : Body} {e arg : Expr} (he : e ∈ body.occurring)
    (harg : arg ∈ e.children) : arg ∈ body.occurring := by
  obtain ⟨top, htop, he⟩ := List.mem_flatMap.1 he
  refine List.mem_flatMap.2 ⟨top, htop, Expr.subset_subterms top he ?_⟩
  rw [Expr.subterms_eq]
  exact List.mem_cons_of_mem _ (Expr.mem_subtermsOf.2 ⟨arg, harg, arg.self_mem_subterms⟩)

end Body

namespace Plan

/-- Each source has a number of its own. -/
def SourcesApart (plan : Plan) : Prop :=
  ∀ body ∈ plan.bodies, ∀ body' ∈ plan.bodies, ∀ source ∈ body.sources,
    ∀ source' ∈ body'.sources, source.id = source'.id → source = source'

/-- Each expression has a number of its own. -/
def ExprsApart (plan : Plan) : Prop :=
  ∀ body ∈ plan.bodies, ∀ body' ∈ plan.bodies, ∀ e ∈ body.occurring,
    ∀ e' ∈ body'.occurring, e.id = e'.id → e = e'

/-- A body holds another one: one of its sources reads it, or it is a subquery in it. -/
inductive Holds (plan : Plan) (body sub : BodyId) : Prop where
  | source {source : Source} (mem : source ∈ (plan.body body).sources)
      (origin : source.origin = .query sub)
  | subquery {id : ExprId} (mem : .subquery id sub ∈ (plan.body body).occurring)

/-- A body in which there is something is one of the plan. -/
theorem body_mem_or_empty (plan : Plan) (id : BodyId) :
    plan.body id ∈ plan.bodies ∨ plan.body id = {} := by
  unfold body
  rw [List.getD_eq_getElem?_getD]
  cases hget : plan.bodies[id]? with
  | none => exact .inr rfl
  | some body => exact .inl (List.mem_of_getElem? hget)

theorem body_mem_bodies {plan : Plan} {id : BodyId} {source : Source}
    (h : source ∈ (plan.body id).sources) : plan.body id ∈ plan.bodies := by
  refine (plan.body_mem_or_empty id).resolve_right fun hempty => ?_
  rw [hempty] at h
  cases h

theorem body_mem_of_occurring {plan : Plan} {id : BodyId} {e : Expr}
    (h : e ∈ (plan.body id).occurring) : plan.body id ∈ plan.bodies := by
  refine (plan.body_mem_or_empty id).resolve_right fun hempty => ?_
  rw [hempty] at h
  cases h

end Plan

end LiveQuery
