import LiveQuery.Proofs.Engine.Failures
import LiveQuery.Proofs.Engine.Nesting
import LiveQuery.Proofs.Graph.Aggregates
import LiveQuery.Proofs.View.Provision

/-!
# Queries that have their aggregates

When all bodies below an accepted query compute the aggregates that they use, no evaluation misses
one: neither the views nor the bodies that are evaluated within others, and the conditions of feeds
have none.

**Results.** `Engine.Reached.equipped`: the engines of such a query. `Plan.aggregates_iff`: which
accepted queries are such, and that none of their evaluations misses an aggregate.
-/

namespace LiveQuery

/-! ## Blueprints of valid bodies -/

/-- Where a clause allows no aggregates there are none. -/
theorem Body.Valid.no_aggregate {body : Body} (h : body.Valid) (clause : Clause)
    (hclause : clause.allowsAggregates = false) {tops : List Expr}
    (htops : ∀ top ∈ tops, (top, clause) ∈ body.clauses) :
    ∀ e ∈ Expr.subtermsOf tops, e.isAggregate = false := by
  intro e he
  obtain ⟨top, htop, he⟩ := Expr.mem_subtermsOf.1 he
  by_contra hagg
  obtain ⟨_, hallowed⟩ := (h.clauses _ (htops top htop)).placed e he (by simpa using hagg)
  rw [hclause] at hallowed
  cases hallowed

namespace Plan

variable {plan : Plan} {query body : BodyId} {g : Graph}

/-- A valid body that computes its aggregates has them where they are needed. -/
theorem grouping_of_valid (accepted : plan.graph query = .ok g) (hvalid : (plan.body body).Valid)
    (hlists : (plan.body body).aggregates ⊆ g.aggregatesOf body) :
    (plan.blueprint g body).Grouping where
  listed e he hagg := hlists (List.mem_filter.2 ⟨he, hagg⟩)
  grouped := rfl
  steps step hstep := by
    obtain ⟨source, _, rfl⟩ := List.mem_map.1 hstep
    refine hvalid.no_aggregate .join rfl fun top htop => ?_
    have hmem : top ∈ (plan.body body).joinExprs :=
      List.mem_map_of_mem (f := Prod.snd) (mem_of_lookup (Option.mem_toList.1 htop))
    simp [Body.clauses, hmem]
  filter := hvalid.no_aggregate .filter rfl fun top htop => by
    have hmem : top ∈ (plan.body body).filter.toList := htop
    simp only [Body.clauses, List.mem_append, List.mem_map]
    exact .inl (.inl (.inl (.inr ⟨top, hmem, rfl⟩)))
  keys := hvalid.no_aggregate .groupBy rfl fun top htop => by
    have hmem : top ∈ (plan.body body).groupExprs := htop
    simp [Body.clauses, hmem]
  order := hvalid.no_aggregate .orderBy rfl fun top htop => by
    obtain ⟨term, hterm, rfl⟩ := List.mem_map.1 htop
    exact List.mem_append_right _ (List.mem_map_of_mem hterm)
  folded e he := by
    obtain ⟨hagg, hoccurs⟩ := occurs_of_aggregatesOf accepted he
    obtain ⟨top, htop, he⟩ := List.mem_flatMap.1 hoccurs
    obtain ⟨clause, hclause⟩ := exists_clause htop
    exact (hvalid.clauses _ hclause).apart e he hagg

/-- The bodies that a graph selects are below the query. -/
theorem reach_of_selections (accepted : plan.graph query = .ok g)
    (h : body ∈ g.selections.map Prod.snd) : Relation.ReflTransGen plan.Holds query body := by
  rw [Engine.bodies_selections] at h
  obtain ⟨k, hk, hbody⟩ := List.mem_filterMap.1 h
  have hrooted := rooted_of_graph accepted
  exact reach_of_nodeOf? accepted (hrooted.selects k body
    (Node.lt_of_mem_inOrder hrooted.mirrored hk) (Graph.bodyOf?_eq_some_iff.1 hbody))

end Plan

namespace Engine

/-! ## Engines that have their aggregates -/

/-- An engine whose bodies have their aggregates: they are computed, and the conditions of feeds
have none. -/
structure Equipped (e : Engine) : Prop extends e.Settled where
  grouping : ∀ body, Relation.ReflTransGen e.plan.Holds e.query body →
    (e.blueprint body).Grouping
  below : ∀ id view, e.views.get? id = some view →
    Relation.ReflTransGen e.plan.Holds e.query id
  filters : ∀ entry ∈ e.layout, ∀ cond ∈ entry.2.filters,
    cond.containsAggregate = false ∧ cond.containsSubquery = false

namespace Equipped

variable {e : Engine} (h : e.Equipped)

include h

theorem setView {id : BodyId} {view : View}
    (hreach : Relation.ReflTransGen e.plan.Holds e.query id)
    (hview : (e.setView id view).Settled) : (e.setView id view).Equipped where
  toSettled := hview
  grouping := h.grouping
  filters := h.filters
  below id' view' hget := by
    change (e.views.insert id view).get? id' = some view' at hget
    rw [OrdMap.get?_insert_eq] at hget
    split at hget
    next heq => exact heq ▸ hreach
    · exact h.below id' view' hget

theorem setFeeds {feeds : List (SourceId × Feed)} (hlayout : feeds.map cleared = e.layout) :
    (e.setFeeds (.ofList feeds)).Equipped where
  toSettled := h.toSettled.setFeeds _
  grouping := h.grouping
  below := h.below
  filters := by
    rw [layout_setFeeds hlayout]
    exact h.filters

/-! ## Evaluation -/

/-- However deep bodies are evaluated, those below the query get rows and values. -/
theorem fed_within (depth : Nat) {body : BodyId}
    (hreach : Relation.ReflTransGen e.plan.Holds e.query body) :
    (e.blueprint body).Fed EvalError.Other
      { plan := e.plan, policy := e.policy, inputs := e.inputsWithin depth } := by
  induction depth generalizing body with
  | zero =>
      have hdeep : EvalError.tooDeep.Other := fun _ heq => by cases heq
      exact ⟨EvalError.other_of_ordinary, fun _ _ _ => .error hdeep, fun _ _ _ _ => .error hdeep⟩
  | succ depth ih =>
      have hview {sub : BodyId} (hholds : e.plan.Holds body sub) (frames : List Frame) :
          Provided EvalError.Other (e.viewWithin (e.inputsWithin depth) sub frames) :=
        have hsub := hreach.tail hholds
        provided_viewWithin ((ih hsub).evaluates_grouping (h.grouping sub hsub) frames)
      rw [inputsWithin_succ]
      refine ⟨EvalError.other_of_ordinary, fun step hstep frames => ?_,
        fun id sub hmem frames => ?_⟩
      · obtain ⟨source, hsource, rfl⟩ := List.mem_map.1 hstep
        exact provided_rows EvalError.other_of_ordinary frames
          fun sub horigin => hview (.source hsource horigin)
      · exact provided_subquery (hview (Plan.holds_of_blueprint h.built hmem) frames)

theorem fed {body : BodyId} (hreach : Relation.ReflTransGen e.plan.Holds e.query body) :
    (e.blueprint body).Fed EvalError.Other e.evaluator :=
  h.fed_within e.plan.depth hreach

theorem provided_passes {id : SourceId} {feed : Feed} (hfeed : (id, feed) ∈ e.feeds.entries)
    (row : Row) : Provided EvalError.Other (e.passes feed row) := by
  refine provided_meets fun cond hcond =>
    ⟨EvalError.other_of_ordinary, fun x hx hagg => ?_, fun id sub hx => ?_⟩
  · have hnone := (h.filters _ (List.mem_map_of_mem hfeed) cond hcond).1
    rw [Expr.containsAggregate, List.any_eq_false] at hnone
    exact absurd hagg (hnone x hx)
  · have hnone := (h.filters _ (List.mem_map_of_mem hfeed) cond hcond).2
    rw [Expr.containsSubquery, List.any_eq_false] at hnone
    exact absurd rfl (hnone _ hx)

/-! ## Operations -/

theorem evaluates {body : BodyId} (hreach : Relation.ReflTransGen e.plan.Holds e.query body) :
    (e.blueprint body).Evaluates EvalError.Other e.evaluator [] :=
  (h.fed hreach).evaluates_grouping (h.grouping body hreach) []

omit h in
theorem guards : Guards Equipped EvalError.Other where
  passes _ h _ hfeed := h.provided_passes hfeed
  fed _ _ h := h.setFeeds
  started _ id view h hview :=
    have hreach := h.below id view hview
    (h.safe_start (h.evaluates hreach)).mono fun _ => h.setView hreach
  updated _ changed id view h hview :=
    have hreach := h.below id view hview
    (h.safe_updateView changed hview (h.evaluates hreach)).mono fun _ => h.setView hreach

theorem safe_load (contents : CollectionId → Rows) :
    Safe Equipped EvalError.Other (load contents) e :=
  guards.safe_load contents h

theorem safe_apply (collection : CollectionId) (batch : List Change) :
    Safe Equipped EvalError.Other (apply collection batch) e :=
  guards.safe_apply collection batch h

end Equipped

variable {plan : Plan} {query : BodyId} {policy : FieldPolicy} {e : Engine} {g : Graph}

theorem equipped_ofQuery (hwritten : plan.Written) (hquery : query < plan.bodies.length)
    (accepted : plan.graph query = .ok g) (hmaintains : plan.Maintains query g)
    (h : ofQuery plan query policy = .ok e) : e.Equipped := by
  have hfeeds := feeds_ofQuery h
  have hsettled := settled_ofQuery h
  obtain ⟨graph, hgraph, hmade⟩ := Except.bind_eq_ok.1 h
  obtain rfl : graph = g := Except.ok.inj (hgraph.symm.trans accepted)
  obtain rfl := Except.pure_eq_ok.1 hmade
  refine ⟨hsettled, fun body hreach => ?_, fun id view hview => ?_,
    fun entry hentry cond hcond => ?_⟩
  · exact Plan.grouping_of_valid accepted
      (Plan.valid_of_graph hwritten hquery accepted hreach) (hmaintains body hreach)
  · obtain ⟨id', hid, heq⟩ := List.mem_map.1 (OrdMap.mem_of_get?_ofList hview)
    obtain ⟨rfl, rfl⟩ := Prod.mk.inj heq
    exact Plan.reach_of_selections accepted (List.mem_filter.1 hid).1
  · obtain ⟨⟨id, feed⟩, hfeed, rfl⟩ := List.mem_map.1 hentry
    obtain ⟨_, source, _, hbelongs⟩ := hfeeds _ hfeed
    have hreads := (List.mem_filter.1 (hbelongs.filters ▸ hcond)).2
    simp only [Body.readsOnly, Bool.and_eq_true, Bool.not_eq_true'] at hreads
    exact ⟨hreads.1.2, hreads.2⟩

/-- The engines of a query whose bodies compute their aggregates have them. -/
theorem Reached.equipped (hwritten : plan.Written) (hquery : query < plan.bodies.length)
    (accepted : plan.graph query = .ok g) (hmaintains : plan.Maintains query g)
    (h : Reached plan query policy e) : e.Equipped :=
  Equipped.guards.of_reached h fun _ => equipped_ofQuery hwritten hquery accepted hmaintains

end Engine

namespace Plan

variable {plan : Plan} {query : BodyId} {g : Graph}

/-- An evaluation that fails is a load that fails. -/
theorem exists_load_of_evaluate {policy : FieldPolicy} {contents : CollectionId → Rows}
    {error : EvalError} (h : evaluate plan query policy contents = .error (.eval error)) :
    ∃ e e', Engine.ofQuery plan query policy = .ok e ∧
      Engine.load contents e = .error error e' := by
  unfold evaluate at h
  split at h
  · cases h
  next e hmade =>
    split at h
    next e' hload =>
      cases h
      exact ⟨e, e', hmade, hload⟩
    next => cases h

/-- The bodies of an accepted query all compute the aggregates they use just if no two of them use
the same one and the nodes of aggregates are listed, as they are in a graph without cycles. Then no
load, no batch and no evaluation of the query fails for want of an aggregate. -/
theorem aggregates_iff (hwritten : plan.Written) (hquery : query < plan.bodies.length)
    (accepted : plan.graph query = .ok g) :
    (plan.Maintains query g ↔ plan.Unshared query ∧ g.ListsAggregates) ∧
    (g.Acyclic → g.ListsAggregates) ∧
    (plan.Maintains query g →
      (∀ policy e, Engine.Reached plan query policy e →
        (∀ contents error e', Engine.load contents e = .error error e' → error.Other) ∧
        ∀ collection batch error e', Engine.apply collection batch e = .error error e' →
          error.Other) ∧
      ∀ policy contents error, evaluate plan query policy contents = .error (.eval error) →
        error.Other) := by
  refine ⟨maintains_iff hwritten hquery accepted, fun hacyclic => ?_, fun hmaintains => ?_⟩
  · exact ((rooted_of_graph accepted).complete_iff.2 hacyclic).listsAggregates
  · have hequipped : ∀ {policy e}, Engine.Reached plan query policy e → e.Equipped :=
      fun h => h.equipped hwritten hquery accepted hmaintains
    refine ⟨fun policy e h => ⟨fun contents _ _ => ((hequipped h).safe_load contents).failure,
      fun collection batch _ _ => ((hequipped h).safe_apply collection batch).failure⟩,
      fun policy contents error hfail => ?_⟩
    obtain ⟨e, e', hmade, hload⟩ := exists_load_of_evaluate hfail
    exact ((hequipped (.made hmade)).safe_load contents).failure hload

/-- A query that counts the rows of a collection, and one that counts the rows of the first, by a
given one of the two expressions that were made to count. -/
def counting (id : ExprId) : Plan :=
  ({} : Plan).write
    [[.aggregate .count [], .bind "c" (.collection ⟨0, "c"⟩) none,
      .select [.field "n" (.expr (.aggregate 0 .count []))]],
    [.aggregate .count [], .bind "s" (.query 0) none,
      .select [.field "n" (.expr (.aggregate id .count []))]]]

theorem counting_written {id : ExprId} (hid : id = 0 ∨ id = 1) : (counting id).Written := by
  have hcount := Draft.Written.first.call (.aggregate .count [])
    (Draft.Call.held_of_isPlain (by decide +kernel))
  have hrows := hcount.call (.bind "c" (.collection ⟨0, "c"⟩) none)
    (Draft.Call.held_of_isPlain (by decide +kernel))
  have hfirst := hrows.call (.select [.field "n" (.expr (.aggregate 0 .count []))])
    ⟨fun _ h => by cases List.mem_singleton.1 h; exact List.mem_singleton.2 rfl,
      fun _ h => by cases h⟩
  have hcount := (hfirst.query rfl).call (.aggregate .count [])
    (Draft.Call.held_of_isPlain (by decide +kernel))
  have hrows := hcount.call (.bind "s" (.query 0) none)
    (Draft.Call.held_of_isPlain (by decide +kernel))
  have hsecond := hrows.call (.select [.field "n" (.expr (.aggregate id .count []))])
    ⟨fun _ h => by
      cases List.mem_singleton.1 h
      rcases hid with rfl | rfl
      · exact List.mem_cons_of_mem _ (List.mem_singleton.2 rfl)
      · exact List.mem_cons_self, fun _ h => by cases h⟩
  exact ⟨_, _, hsecond, rfl⟩

/-- With an expression of its own the second query has its aggregate. -/
theorem aggregates_iff_own :
    (counting 1).Written ∧ 1 < (counting 1).bodies.length ∧ ∃ g, (counting 1).graph 1 = .ok g ∧
      (counting 1).Maintains 1 g ∧
      ∀ policy contents error, evaluate (counting 1) 1 policy contents = .error (.eval error) →
        error.Other := by
  have hwritten := @counting_written 1 (.inr rfl)
  have hquery : 1 < (counting 1).bodies.length := by decide +kernel
  have hunshared : (counting 1).Unshared 1 := by
    have hids : ∀ body, ∀ e ∈ ((counting 1).body body).aggregates, e.id = body := by
      intro body
      match body with
      | 0 => decide +kernel
      | 1 => decide +kernel
      | _ + 2 => exact fun _ h => by cases h
    exact fun body body' _ _ e he he' => (hids body e he).symm.trans (hids body' e he')
  obtain ⟨g, hgraph, hlisted⟩ : ∃ g, (counting 1).graph 1 = .ok g ∧
      (List.range g.size).all g.order.contains = true :=
    Except.exists_of_toOption (by decide +kernel)
  have hcomplete : g.Complete := fun k hk =>
    List.contains_iff_mem.1 (List.all_eq_true.1 hlisted k (List.mem_range.2 hk))
  obtain ⟨hmaintains, hlists, hprovided⟩ := aggregates_iff hwritten hquery hgraph
  have hmaintained := hmaintains.2
    ⟨hunshared, hlists ((rooted_of_graph hgraph).complete_iff.1 hcomplete)⟩
  exact ⟨hwritten, hquery, g, hgraph, hmaintained, (hprovided hmaintained).2⟩

/-- When it counts by the expression of the first query, it is accepted, but its aggregate is that of
the first one, and evaluation fails. -/
theorem aggregates_fail :
    (counting 0).Written ∧ 1 < (counting 0).bodies.length ∧ ∃ g, (counting 0).graph 1 = .ok g ∧
      ¬(counting 0).Maintains 1 g ∧
      evaluate (counting 0) 1 .undefined (fun _ => .empty)
        = .error (.eval (.missingAggregate "count()")) := by
  obtain ⟨g, hgraph, hnone⟩ : ∃ g, (counting 0).graph 1 = .ok g ∧
      (g.aggregatesOf 1).isEmpty = true :=
    Except.exists_of_toOption (by decide +kernel)
  refine ⟨counting_written (.inl rfl), by decide +kernel, g, hgraph, fun hmaintains => ?_,
    by decide +kernel⟩
  have hmem : .aggregate 0 .count [] ∈ ((counting 0).body 1).aggregates :=
    List.mem_singleton.2 rfl
  have hlisted := hmaintains 1 .refl hmem
  rw [List.isEmpty_iff.1 hnone] at hlisted
  cases hlisted

end Plan

end LiveQuery
