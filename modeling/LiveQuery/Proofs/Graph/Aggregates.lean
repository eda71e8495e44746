import LiveQuery.Proofs.Graph.Acyclic
import LiveQuery.Proofs.Graph.Kinds
import LiveQuery.Proofs.Plan.Validity

/-!
# Which aggregates a body computes

An aggregate has one node, which names the body that the walk was in when it met the aggregate
first. Over the groups of other bodies it is not computed, although they may use it.

**Results.** `Visits.walked`: only bodies below the query are met. `Plan.maintains_iff`: all bodies of
an accepted query compute the aggregates they use just if no two of them use the same one, and the
nodes of the aggregates are listed.
-/

namespace LiveQuery

/-- The aggregates that stand in the selection of a body or in its conditions on groups. -/
def Body.aggregates (body : Body) : List Expr :=
  (Expr.subtermsOf (body.selectionExprs ++ body.having.toList)).filter Expr.isAggregate

theorem Body.mem_aggregates {body : Body} {e : Expr} :
    e ∈ body.aggregates ↔
      (∃ top ∈ body.selectionExprs ++ body.having.toList, e ∈ top.subterms) ∧
        e.isAggregate = true := by
  rw [aggregates, List.mem_filter, Expr.mem_subtermsOf]

theorem Body.occurring_of_aggregates {body : Body} : body.aggregates ⊆ body.occurring := by
  intro e he
  obtain ⟨⟨top, htop, he⟩, _⟩ := mem_aggregates.1 he
  refine List.mem_flatMap.2 ⟨top, ?_, he⟩
  rcases List.mem_append.1 htop with htop | htop <;> simp [expressions, htop]

/-- In a valid body all aggregates stand in the selection or in the conditions on groups. -/
theorem Body.Valid.mem_aggregates {body : Body} (h : body.Valid) {e : Expr} (he : e ∈ body.occurring)
    (hagg : e.isAggregate = true) : e ∈ body.aggregates := by
  obtain ⟨top, htop, he⟩ := List.mem_flatMap.1 he
  obtain ⟨clause, hclause⟩ := Plan.exists_clause htop
  obtain ⟨_, hallowed⟩ := (h.clauses _ hclause).placed e he hagg
  refine Body.mem_aggregates.2 ⟨⟨top, ?_, he⟩, hagg⟩
  simp only [Body.clauses, List.mem_append, List.mem_map, Prod.mk.injEq] at hclause
  rcases hclause with ((((h | h) | h) | h) | h) | h <;> obtain ⟨_, hmem, rfl, rfl⟩ := h
  · exact List.mem_append_left _ hmem
  · cases hallowed
  · cases hallowed
  · cases hallowed
  · exact List.mem_append_right _ hmem
  · cases hallowed

/-- The nodes of aggregates are all listed. -/
def Graph.ListsAggregates (g : Graph) : Prop :=
  ∀ k e owner, g.Aggregates k e owner → k ∈ g.order

theorem Graph.Complete.listsAggregates {g : Graph} (h : g.Complete) : g.ListsAggregates := by
  intro k e owner hk
  obtain ⟨_, hnode, _⟩ := Option.map_eq_some_iff.1 (Graph.aggregates_iff_kind.1 hk)
  exact h k (List.getElem?_eq_some_iff.1 hnode).1

namespace Plan

variable {plan : Plan} {query : BodyId}

theorem binder_mem_of_resolve? {scopes : List BodyId} {name : String} {binder : BodyId}
    {source : Source} (h : plan.resolve? scopes name = some (binder, source)) : binder ∈ scopes := by
  obtain ⟨body, hbody, hsource⟩ := List.exists_of_findSome?_eq_some h
  obtain ⟨_, _, heq⟩ := Option.map_eq_some_iff.1 hsource
  cases heq
  exact hbody

/-- The bodies on a way that is walked are below the query. -/
theorem Walks.reach {bodies : List BodyId} (h : plan.Walks query bodies) :
    ∀ b ∈ bodies, Relation.ReflTransGen plan.Holds query b := by
  induction h with
  | root => exact List.forall_mem_singleton.2 .refl
  | source _ mem origin ih =>
      exact List.forall_mem_cons.2 ⟨(ih _ List.mem_cons_self).tail (.source mem origin), ih⟩
  | subquery _ occurs ih =>
      exact List.forall_mem_cons.2 ⟨(ih _ List.mem_cons_self).tail (.subquery occurs), ih⟩
  | reference _ _ resolved origin ih =>
      have hbinder := ih _ (binder_mem_of_resolve? resolved)
      exact List.forall_mem_cons.2
        ⟨hbinder.tail (.source (mem_of_resolve? resolved).1 origin), ih⟩

theorem exists_nests_of_reach {body : BodyId} (h : Relation.ReflTransGen plan.Holds query body) :
    ∃ outer, plan.Nests query (body :: outer) := by
  induction h with
  | refl => exact ⟨[], .root⟩
  | tail _ hholds ih =>
      obtain ⟨outer, hnests⟩ := ih
      cases hholds with
      | source mem origin => exact ⟨_, hnests.source mem origin⟩
      | subquery mem => exact ⟨_, hnests.subquery mem⟩

end Plan

/-! ## Bodies that are met -/

namespace Visits

variable {plan : Plan} {query : BodyId} {walk : Walk} {visited : Visited}
  {dependent : Option NodeId} {s s' : Sketch}

/-- The bodies that are met are on ways that are walked. -/
theorem walked (h : Visits plan walk visited dependent s s')
    (hlies : visited.Lies plan query walk.scopes) {body : BodyId} (hbody : s'.Has (.body body)) :
    s.Has (.body body) ∨ ∃ outer, plan.Walks query (body :: outer) := by
  have hcreated : ∀ {s : Sketch} {id : ExprId} {kind : NodeKind} {dependent : Option NodeId},
      (s.create (.expr id) kind dependent).Has (.body body) → s.Has (.body body) :=
    fun hmet => ((Sketch.has_create _ _ _ _ _).1 hmet).resolve_left nofun
  induction h with
  | knownBody => exact .inl ((Sketch.has_link _ _ _ _).1 hbody)
  | @newBody walk id dependent s s₁ s₂ new sources exprs joins ihSources ihExprs =>
      rcases ihExprs (fun e he => ⟨(plan.body id).expressions_subset_occurring he, walk.scopes, rfl,
        hlies⟩) hbody with hmet | hwalks
      · rcases ihSources (fun t ht => ⟨ht, fun sub horigin => .source hlies ht horigin⟩) hmet
          with hmet | hwalks
        · rcases (Sketch.has_create _ _ _ _ _).1 hmet with heq | hmet
          · cases heq
            exact .inr ⟨_, hlies⟩
          · exact .inl hmet
        · exact .inr hwalks
      · exact .inr hwalks
  | knownSource => exact .inl ((Sketch.has_link _ _ _ _).1 hbody)
  | collection => exact .inl (((Sketch.has_create _ _ _ _ _).1 hbody).resolve_left nofun)
  | query _ origin _ ih =>
      exact ih (hlies.2 _ origin) (((Sketch.has_register _ _ _ _).1 hbody).resolve_left nofun)
  | noSources => exact .inl hbody
  | @moreSources walk owner source rest dependent s s₁ s₂ first others ihFirst ihOthers =>
      rcases ihOthers (fun t ht => hlies t (List.mem_cons_of_mem _ ht)) hbody with hmet | hwalks
      · exact ihFirst (hlies source List.mem_cons_self) hmet
      · exact .inr hwalks
  | knownExpr => exact .inl ((Sketch.has_link _ _ _ _).1 hbody)
  | literal => exact .inl (hcreated hbody)
  | @reference walk owner binder id path source dependent s s₁ new resolved origin ih =>
      obtain ⟨hoccurs, outer, hscopes, hwalks⟩ := hlies
      have hsource : Visited.Lies plan query walk.scopes (.source binder source) := by
        refine ⟨(Plan.mem_of_resolve? resolved).1, fun sub horigin => ?_⟩
        rw [hscopes] at hwalks resolved ⊢
        exact .reference hwalks hoccurs resolved horigin
      exact (ih hsource hbody).imp_left hcreated
  | call _ _ ih =>
      exact (ih (fun arg harg => ⟨Body.occurring_of_child hlies.1 harg, hlies.2⟩) hbody).imp_left
        hcreated
  | aggregate _ _ ih =>
      exact (ih (fun arg harg => ⟨Body.occurring_of_child hlies.1 harg, hlies.2⟩) hbody).imp_left
        hcreated
  | @subquery walk owner id body' node dependent s s₁ new selection ih =>
      obtain ⟨hoccurs, outer, hscopes, hwalks⟩ := hlies
      have hinner : plan.Walks query (body' :: walk.scopes) := by
        rw [hscopes] at hwalks ⊢
        exact .subquery hwalks hoccurs
      exact (ih hinner hbody).imp_left hcreated
  | noExprs => exact .inl hbody
  | @moreExprs walk owner e rest dependent s s₁ s₂ first others ihFirst ihOthers =>
      rcases ihOthers (fun t ht => hlies t (List.mem_cons_of_mem _ ht)) hbody with hmet | hwalks
      · exact ihFirst (hlies e List.mem_cons_self) hmet
      · exact .inr hwalks

end Visits

namespace Plan

variable {plan : Plan} {query : BodyId} {g : Graph}

/-- The bodies with a node are below the query. -/
theorem reach_of_nodeOf? (accepted : plan.graph query = .ok g) {body : BodyId} {k : NodeId}
    (h : g.nodeOf? (.body body) = some k) : Relation.ReflTransGen plan.Holds query body := by
  obtain ⟨s, hvisits, _, hindex⟩ := visits_of_graph accepted
  have hmet : s.Has (.body body) := ⟨k, by rw [← hindex]; exact h⟩
  rcases hvisits.walked Walks.root hmet with ⟨_, hempty⟩ | ⟨outer, hwalks⟩
  · cases hempty
  · exact hwalks.reach body List.mem_cons_self

/-- An aggregate is computed over the groups of a body below the query, in which it occurs. -/
theorem reach_of_aggregates (accepted : plan.graph query = .ok g) {k : NodeId} {e : Expr}
    {owner : BodyId} (h : g.Aggregates k e owner) :
    Relation.ReflTransGen plan.Holds query owner := by
  obtain ⟨_, _, _, hj⟩ := occurs_of_aggregates accepted h
  exact reach_of_nodeOf? accepted hj

/-- An aggregate of a body below the query has a node. -/
theorem exists_aggregates (accepted : plan.graph query = .ok g) (sourcesApart : plan.SourcesApart)
    (exprsApart : plan.ExprsApart) {body : BodyId}
    (hreach : Relation.ReflTransGen plan.Holds query body) {e : Expr}
    (hoccurs : e ∈ (plan.body body).occurring) (hagg : e.isAggregate = true) :
    ∃ k owner, g.Aggregates k e owner := by
  obtain ⟨s, hvisits, hnodes, hindex, hlabelled⟩ := labelled_of_graph accepted
  have hexplored := hvisits.explores sourcesApart exprsApart Walks.root (.empty plan query)
  obtain ⟨outer, hnests⟩ := exists_nests_of_reach hreach
  obtain ⟨k, hk⟩ := hexplored.has_of_occurring (hexplored.has_of_nests hvisits.met hnests) hoccurs
  obtain ⟨e', owner, hid, hoccurs', _, hkind⟩ := hlabelled.exprs _ _ hk
  obtain rfl := exprsApart _ (body_mem_of_occurring hoccurs') _ (body_mem_of_occurring hoccurs) e'
    hoccurs' e hoccurs hid
  rw [Expr.kindIn, if_pos hagg, ← hnodes] at hkind
  exact ⟨k, owner, Graph.aggregates_iff_kind.2 hkind⟩

/-- All bodies below a query compute the aggregates that they use. -/
def Maintains (plan : Plan) (query : BodyId) (g : Graph) : Prop :=
  ∀ body, Relation.ReflTransGen plan.Holds query body →
    (plan.body body).aggregates ⊆ g.aggregatesOf body

/-- No two bodies below a query use the same aggregate. -/
def Unshared (plan : Plan) (query : BodyId) : Prop :=
  ∀ body body', Relation.ReflTransGen plan.Holds query body →
    Relation.ReflTransGen plan.Holds query body' → ∀ e ∈ (plan.body body).aggregates,
      e ∈ (plan.body body').aggregates → body = body'

/-- An aggregate has one node, and is computed over the groups of one body. -/
theorem aggregates_unique (accepted : plan.graph query = .ok g) {k k' : NodeId}
    {body body' : BodyId} {e : Expr} (h : g.Aggregates k e body) (h' : g.Aggregates k' e body') :
    k = k' ∧ body = body' := by
  obtain ⟨s, _, hnodes, _, hlabelled⟩ := labelled_of_graph accepted
  have hlookup := hlabelled.aggregates k e body (hnodes ▸ Graph.aggregates_iff_kind.1 h)
  have hlookup' := hlabelled.aggregates k' e body' (hnodes ▸ Graph.aggregates_iff_kind.1 h')
  obtain rfl : k = k' := Option.some.inj (hlookup.symm.trans hlookup')
  have hsame := h.symm.trans h'
  cases hsame
  exact ⟨rfl, rfl⟩

theorem maintains_iff (hwritten : plan.Written) (hquery : query < plan.bodies.length)
    (accepted : plan.graph query = .ok g) :
    plan.Maintains query g ↔ plan.Unshared query ∧ g.ListsAggregates := by
  -- the body that an aggregate was met in is one that uses it
  have hused : ∀ {k e owner}, g.Aggregates k e owner →
      Relation.ReflTransGen plan.Holds query owner ∧ e ∈ (plan.body owner).aggregates := by
    intro k e owner h
    have hreach := reach_of_aggregates accepted h
    obtain ⟨hagg, hoccurs, _⟩ := occurs_of_aggregates accepted h
    exact ⟨hreach, (valid_of_graph hwritten hquery accepted hreach).mem_aggregates hoccurs hagg⟩
  constructor
  · refine fun hmaintains => ⟨fun body body' hreach hreach' e he he' => ?_, fun k e owner h => ?_⟩
    · obtain ⟨k, _, hk⟩ := Graph.mem_aggregatesOf.1 (hmaintains body hreach he)
      obtain ⟨k', _, hk'⟩ := Graph.mem_aggregatesOf.1 (hmaintains body' hreach' he')
      exact (aggregates_unique accepted hk hk').2
    · obtain ⟨hreach, he⟩ := hused h
      obtain ⟨k', hlisted, hk'⟩ := Graph.mem_aggregatesOf.1 (hmaintains owner hreach he)
      rwa [(aggregates_unique accepted h hk').1]
  · rintro ⟨hunshared, hlists⟩ body hreach e he
    obtain ⟨k, owner, hk⟩ := exists_aggregates accepted hwritten.sourcesApart
      hwritten.exprsApart hreach (Body.occurring_of_aggregates he) (Body.mem_aggregates.1 he).2
    obtain ⟨hreach', he'⟩ := hused hk
    obtain rfl := hunshared body owner hreach hreach' e he he'
    exact Graph.mem_aggregatesOf.2 ⟨k, hlists k e body hk, hk⟩

end Plan

end LiveQuery
