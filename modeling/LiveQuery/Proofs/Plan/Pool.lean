import LiveQuery.Plan.Draft
import LiveQuery.Proofs.Plan.Occurrences

/-!
# Where the expressions of a plan come from

The expressions of a plan come from a pool. Each has a number of its own there, which was given
out for it, and a new one only has arguments of the pool. So does a body that is changed: what
its clauses then hold is what they held, and what they were given.

**Results.** `Plan.DrawsFrom.newExpr` and `Plan.DrawsFrom.bindSource`: a new expression and a
new source are apart from the old ones. `Plan.DrawsFrom.occurring`: all that occurs in a body is
in the pool.
-/

namespace LiveQuery

/-- What a source can read in a plan with a number of bodies. -/
def Origin.Held (bodies : Nat) : Origin → Prop
  | .query body => body < bodies
  | .collection _ => True

namespace Plan

/-- What is in a plan was made for it: its expressions come from a pool where each has a number
of its own that was given out, and so do the arguments of each; its sources have such numbers as
well, and read bodies of the plan. -/
structure DrawsFrom (plan : Plan) (pool : List Expr) : Prop where
  fresh : ∀ e ∈ pool, e.id < plan.exprCount
  apart : ∀ e ∈ pool, ∀ e' ∈ pool, e.id = e'.id → e = e'
  children : ∀ e ∈ pool, e.children ⊆ pool
  subqueryBodies : ∀ id body, .subquery id body ∈ pool → body < plan.bodies.length
  references : ∀ entry ∈ plan.references, entry.2 ∈ pool
  subqueries : ∀ entry ∈ plan.subqueries, entry.2 ∈ pool
  expressions : ∀ body ∈ plan.bodies, body.expressions ⊆ pool
  sourcesFresh : ∀ body ∈ plan.bodies, ∀ source ∈ body.sources, source.id < plan.sourceCount
  sourcesApart : plan.SourcesApart
  origins : ∀ body ∈ plan.bodies, ∀ source ∈ body.sources, source.origin.Held plan.bodies.length

end Plan

namespace Expr

mutual

/-- All that is below an expression of a pool that has the arguments of each is in it. -/
theorem subterms_subset {pool : List Expr} (hchildren : ∀ e ∈ pool, e.children ⊆ pool)
    (top : Expr) (h : top ∈ pool) : top.subterms ⊆ pool := by
  match top with
  | .call id function args =>
      exact List.cons_subset.2 ⟨h, subtermsOf_subset_pool hchildren args (hchildren _ h)⟩
  | .aggregate id function args =>
      exact List.cons_subset.2 ⟨h, subtermsOf_subset_pool hchildren args (hchildren _ h)⟩
  | .literal id value => exact List.cons_subset.2 ⟨h, List.nil_subset _⟩
  | .reference id path => exact List.cons_subset.2 ⟨h, List.nil_subset _⟩
  | .subquery id body => exact List.cons_subset.2 ⟨h, List.nil_subset _⟩

theorem subtermsOf_subset_pool {pool : List Expr} (hchildren : ∀ e ∈ pool, e.children ⊆ pool)
    (tops : List Expr) (h : tops ⊆ pool) : subtermsOf tops ⊆ pool := by
  match tops with
  | [] => exact List.nil_subset _
  | first :: rest =>
      obtain ⟨hfirst, hrest⟩ := List.cons_subset.1 h
      exact List.append_subset.2
        ⟨subterms_subset hchildren first hfirst, subtermsOf_subset_pool hchildren rest hrest⟩

end

end Expr

namespace Plan.DrawsFrom

variable {plan : Plan} {pool : List Expr}

/-- Bodies are changed in a plan, or added. -/
theorem setBodies (h : plan.DrawsFrom pool) {bodies : List Body}
    (hlength : plan.bodies.length ≤ bodies.length)
    (hexprs : ∀ body ∈ bodies, body.expressions ⊆ pool)
    (hsources : ∀ body ∈ bodies, ∀ source ∈ body.sources,
      ∃ old ∈ plan.bodies, source ∈ old.sources) :
    ({ plan with bodies := bodies } : Plan).DrawsFrom pool where
  fresh := h.fresh
  apart := h.apart
  children := h.children
  subqueryBodies id body hmem := Nat.lt_of_lt_of_le (h.subqueryBodies id body hmem) hlength
  references := h.references
  subqueries := h.subqueries
  expressions := hexprs
  sourcesFresh body hbody source hsource := by
    obtain ⟨old, hold, hmem⟩ := hsources body hbody source hsource
    exact h.sourcesFresh old hold source hmem
  sourcesApart body hbody body' hbody' source hsource source' hsource' := by
    obtain ⟨old, hold, hmem⟩ := hsources body hbody source hsource
    obtain ⟨old', hold', hmem'⟩ := hsources body' hbody' source' hsource'
    exact h.sourcesApart old hold old' hold' source hmem source' hmem'
  origins body hbody source hsource := by
    obtain ⟨old, hold, hmem⟩ := hsources body hbody source hsource
    have horigin := h.origins old hold source hmem
    cases heq : source.origin with
    | collection ref => trivial
    | query sub =>
        rw [heq] at horigin
        exact Nat.lt_of_lt_of_le horigin hlength

theorem openBody (h : plan.DrawsFrom pool) :
    ({ plan with bodies := plan.bodies ++ [{}] } : Plan).DrawsFrom pool := by
  refine h.setBodies (by simp) (fun body hbody => ?_) fun body hbody source hsource => ?_
  · rcases List.mem_append.1 hbody with hold | hnew
    · exact h.expressions body hold
    · rw [List.mem_singleton.1 hnew]
      exact List.nil_subset _
  · rcases List.mem_append.1 hbody with hold | hnew
    · exact ⟨body, hold, hsource⟩
    · rw [List.mem_singleton.1 hnew] at hsource
      cases hsource

/-- A number is given out for a new expression, the arguments of which there are. -/
theorem newExpr (h : plan.DrawsFrom pool) {e : Expr} (hid : e.id = plan.exprCount)
    (hchildren : e.children ⊆ pool)
    (hsubquery : ∀ id body, e = .subquery id body → body < plan.bodies.length) :
    ({ plan with exprCount := plan.exprCount + 1 } : Plan).DrawsFrom (e :: pool) where
  fresh := by
    refine List.forall_mem_cons.2 ⟨?_, fun e' he' => Nat.lt_succ_of_lt (h.fresh e' he')⟩
    rw [hid]
    exact Nat.lt_succ_self _
  apart := by
    have hnew : ∀ e' ∈ pool, e'.id ≠ e.id := fun e' he' heq => by
      have := h.fresh e' he'
      rw [heq, hid] at this
      exact Nat.lt_irrefl _ this
    intro e₁ he₁ e₂ he₂ heq
    rcases List.mem_cons.1 he₁ with rfl | hold₁
    · rcases List.mem_cons.1 he₂ with rfl | hold₂
      · rfl
      · exact absurd heq.symm (hnew e₂ hold₂)
    · rcases List.mem_cons.1 he₂ with rfl | hold₂
      · exact absurd heq (hnew e₁ hold₁)
      · exact h.apart e₁ hold₁ e₂ hold₂ heq
  children := List.forall_mem_cons.2
    ⟨List.subset_cons_of_subset _ hchildren,
      fun e' he' => List.subset_cons_of_subset _ (h.children e' he')⟩
  subqueryBodies id body hmem := by
    rcases List.mem_cons.1 hmem with heq | hmem
    · exact hsubquery id body heq.symm
    · exact h.subqueryBodies id body hmem
  references entry hentry := List.mem_cons_of_mem _ (h.references entry hentry)
  subqueries entry hentry := List.mem_cons_of_mem _ (h.subqueries entry hentry)
  expressions body hbody := List.subset_cons_of_subset _ (h.expressions body hbody)
  sourcesFresh := h.sourcesFresh
  sourcesApart := h.sourcesApart
  origins := h.origins

/-- A reference is kept, to be used again. -/
theorem setReferences (h : plan.DrawsFrom pool) {references : List ((BodyId × Path) × Expr)}
    (hreferences : ∀ entry ∈ references, entry.2 ∈ pool) :
    ({ plan with references := references } : Plan).DrawsFrom pool :=
  { h with references := hreferences }

theorem setSubqueries (h : plan.DrawsFrom pool) {subqueries : List (BodyId × Expr)}
    (hsubqueries : ∀ entry ∈ subqueries, entry.2 ∈ pool) :
    ({ plan with subqueries := subqueries } : Plan).DrawsFrom pool :=
  { h with subqueries := hsubqueries }

theorem setAliasCount (h : plan.DrawsFrom pool) (n : Nat) :
    ({ plan with aliasCount := n } : Plan).DrawsFrom pool :=
  { h with }

/-- A source is added to a body under a new number. -/
theorem bindSource (h : plan.DrawsFrom pool) (target : BodyId) {source : Source}
    (hid : source.id = plan.sourceCount) (horigin : source.origin.Held plan.bodies.length) :
    ({ plan with
        sourceCount := plan.sourceCount + 1
        bodies := plan.bodies.modify target fun body =>
          { body with sources := body.sources ++ [source] } } : Plan).DrawsFrom pool := by
  have hold : ∀ body ∈ plan.bodies.modify target fun body =>
        { body with sources := body.sources ++ [source] },
      ∃ old ∈ plan.bodies, body.expressions = old.expressions
        ∧ ∀ s ∈ body.sources, s ∈ old.sources ∨ s = source := by
    intro body hbody
    obtain ⟨k, hk⟩ := List.mem_iff_getElem?.1 hbody
    rw [List.getElem?_modify] at hk
    obtain ⟨old, hget, heq⟩ := Option.map_eq_some_iff.1 hk
    refine ⟨old, List.mem_of_getElem? hget, ?_⟩
    split at heq
    · subst heq
      exact ⟨rfl, fun s hs => (List.mem_append.1 hs).imp_right List.mem_singleton.1⟩
    · subst heq
      exact ⟨rfl, fun s hs => .inl hs⟩
  have hnew : ∀ body ∈ plan.bodies, ∀ s ∈ body.sources, s.id ≠ source.id := fun body hbody s hs heq => by
    have := h.sourcesFresh body hbody s hs
    rw [heq, hid] at this
    exact Nat.lt_irrefl _ this
  exact {
    fresh := h.fresh
    apart := h.apart
    children := h.children
    subqueryBodies := fun id body hmem => by simpa using h.subqueryBodies id body hmem
    references := h.references
    subqueries := h.subqueries
    expressions := fun body hbody => by
      obtain ⟨old, hmem, hexprs, -⟩ := hold body hbody
      exact hexprs ▸ h.expressions old hmem
    sourcesFresh := fun body hbody s hs => by
      obtain ⟨old, hmem, -, hsources⟩ := hold body hbody
      rcases hsources s hs with hs | rfl
      · exact Nat.lt_succ_of_lt (h.sourcesFresh old hmem s hs)
      · exact hid ▸ Nat.lt_succ_self _
    sourcesApart := fun body hbody body' hbody' s hs s' hs' heq => by
      obtain ⟨old, hmem, -, hsources⟩ := hold body hbody
      obtain ⟨old', hmem', -, hsources'⟩ := hold body' hbody'
      rcases hsources s hs with hs | rfl
      · rcases hsources' s' hs' with hs' | rfl
        · exact h.sourcesApart old hmem old' hmem' s hs s' hs' heq
        · exact absurd heq (hnew old hmem s hs)
      · rcases hsources' s' hs' with hs' | rfl
        · exact absurd heq.symm (hnew old' hmem' s' hs')
        · rfl
    origins := fun body hbody s hs => by
      obtain ⟨old, hmem, -, hsources⟩ := hold body hbody
      rw [List.length_modify]
      rcases hsources s hs with hs | rfl
      · exact h.origins old hmem s hs
      · exact horigin }

theorem empty : ({} : Plan).DrawsFrom [] := by
  constructor <;> simp [Plan.SourcesApart]

theorem body (h : plan.DrawsFrom pool)
    (id : BodyId) : (plan.body id).expressions ⊆ pool := by
  rcases plan.body_mem_or_empty id with hmem | hempty
  · exact h.expressions _ hmem
  · rw [hempty]
    exact List.nil_subset _

theorem occurring (h : plan.DrawsFrom pool) (id : BodyId) :
    (plan.body id).occurring ⊆ pool := by
  intro e he
  obtain ⟨top, htop, he⟩ := List.mem_flatMap.1 he
  exact Expr.subterms_subset h.children top (h.body id htop) he

end Plan.DrawsFrom

/-! ## The expressions of a body whose clauses change -/

namespace Body

variable (body : Body)

theorem expressions_setFilter (e : Expr) :
    ({ body with filter := some e } : Body).expressions ⊆ [e] ++ body.expressions := by
  intro x hx
  simp only [expressions, List.mem_append, Option.toList_some] at hx ⊢
  grind [selectionExprs, joinExprs, groupExprs, orderTerms]

theorem expressions_setHaving (e : Expr) :
    ({ body with having := some e } : Body).expressions ⊆ [e] ++ body.expressions := by
  intro x hx
  simp only [expressions, List.mem_append, Option.toList_some] at hx ⊢
  grind [selectionExprs, joinExprs, groupExprs, orderTerms]

theorem expressions_setSelection (selection : Selection) :
    ({ body with selection := some selection } : Body).expressions
      ⊆ selection.exprs ++ body.expressions := by
  intro x hx
  simp only [expressions, List.mem_append] at hx ⊢
  grind [selectionExprs, joinExprs, groupExprs, orderTerms]

theorem expressions_addKeys (es : List Expr) :
    ({ body with groupBy := some (body.groupExprs ++ es) } : Body).expressions
      ⊆ es ++ body.expressions := by
  intro x hx
  simp only [expressions, List.mem_append] at hx ⊢
  grind [selectionExprs, joinExprs, groupExprs, orderTerms]

theorem expressions_addTerm (term : OrderTerm) :
    ({ body with orderBy := some (body.orderTerms ++ [term]) } : Body).expressions
      ⊆ [term.expr] ++ body.expressions := by
  intro x hx
  simp only [expressions, List.mem_append, List.mem_map, List.mem_singleton] at hx ⊢
  grind [selectionExprs, joinExprs, groupExprs, orderTerms]

theorem mem_setCondition {name : String} {cond : Expr} {conditions : List (String × Expr)}
    {entry : String × Expr} (h : entry ∈ Builder.setCondition name cond conditions) :
    entry.2 = cond ∨ entry ∈ conditions := by
  induction conditions with
  | nil => simp_all [Builder.setCondition]
  | cons first rest ih => grind [Builder.setCondition]

theorem expressions_setCondition (name : String) (cond : Expr) :
    ({ body with
        joinConditions := Builder.setCondition name cond body.joinConditions } : Body).expressions
      ⊆ [cond] ++ body.expressions := by
  have hjoin : ∀ e ∈ (Builder.setCondition name cond body.joinConditions).map Prod.snd,
      e = cond ∨ e ∈ body.joinExprs := by
    intro e he
    obtain ⟨entry, hentry, rfl⟩ := List.mem_map.1 he
    exact (mem_setCondition hentry).imp_right fun hold => List.mem_map.2 ⟨_, hold, rfl⟩
  intro x hx
  simp only [expressions, List.mem_append, List.mem_singleton] at hx ⊢
  grind [selectionExprs, joinExprs, groupExprs, orderTerms]

theorem filter_subset_expressions : body.filter.toList ⊆ body.expressions :=
  fun e he => by simp only [expressions, List.mem_append, he, true_or, or_true]

theorem having_subset_expressions : body.having.toList ⊆ body.expressions :=
  fun e he => by simp only [expressions, List.mem_append, he, true_or, or_true]

theorem joinExprs_subset_expressions : body.joinExprs ⊆ body.expressions :=
  fun e he => by simp only [expressions, List.mem_append, he, true_or, or_true]

end Body

end LiveQuery
