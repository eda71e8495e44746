import LiveQuery.Proofs.Graph.Aggregates
import Mathlib.Data.List.Forall2

/-!
# Graphs as images of queries

A query is made of its bodies, the expressions that occur in them, and the collections that their
sources read. Each of these objects has a node of its own. A visit adds one input to its dependent for
each object that is visited, in order, and to no other node that was there; so what is visited for a
new node is all that the node has as inputs.

**Results.** `Visits.gains`: what one visit adds to a sketch. `Plan.depicts_of_graph`: the nodes of
the graph of a query are just the objects it is made of, and its edges what these are made of.
-/

namespace LiveQuery

/-- The object that a node of some kind stands for. -/
def NodeKind.identity : NodeKind → Identity
  | .collection source _ _ => .source source.id
  | .expression e => .expr e.id
  | .aggregate e _ => .expr e.id
  | .selection body => .body body

theorem Expr.identity_kindIn (e : Expr) (owner : BodyId) :
    (e.kindIn owner).identity = .expr e.id := by
  unfold kindIn
  split <;> rfl

namespace Plan

variable (plan : Plan) (query : BodyId)

/-- The objects that a query is made of. A source that reads a query is no object of its own. -/
inductive Object : Identity → Prop
  | body {body : BodyId} (reach : Relation.ReflTransGen plan.Holds query body) :
      Object (.body body)
  | collection {body : BodyId} {source : Source} {ref : CollectionRef}
      (reach : Relation.ReflTransGen plan.Holds query body)
      (mem : source ∈ (plan.body body).sources) (origin : source.origin = .collection ref) :
      Object (.source source.id)
  | expr {body : BodyId} {e : Expr} (reach : Relation.ReflTransGen plan.Holds query body)
      (occurs : e ∈ (plan.body body).occurring) : Object (.expr e.id)

/-- The kinds of the nodes that objects of the query have, with what the nodes tell of them. -/
inductive Shows : NodeKind → Prop
  | selection {body : BodyId} (reach : Relation.ReflTransGen plan.Holds query body) :
      Shows (.selection body)
  | collection {body : BodyId} {source : Source} {ref : CollectionRef}
      (reach : Relation.ReflTransGen plan.Holds query body)
      (mem : source ∈ (plan.body body).sources) (origin : source.origin = .collection ref) :
      Shows (.collection source ref ((plan.body body).conditionsReading source.name))
  | expr {body : BodyId} {e : Expr} (reach : Relation.ReflTransGen plan.Holds query body)
      (occurs : e ∈ (plan.body body).occurring) : Shows (e.kindIn body)

/-- What an object is made of, in order and as often as it is used: a body of its sources and its
expressions, an expression of its arguments, a subquery of its body, and a reference of the source
that its alias stands for on a way on which the query is walked. -/
inductive Parts : NodeKind → List Identity → Prop
  | selection (body : BodyId) : Parts (.selection body)
      ((plan.body body).sources.map (.source ·.id) ++ (plan.body body).expressions.map (.expr ·.id))
  | collection (source : Source) (ref : CollectionRef) (conditions : List Expr) :
      Parts (.collection source ref conditions) []
  | literal (id : ExprId) (value : Scalar) : Parts (.expression (.literal id value)) []
  | reference {body binder : BodyId} {outer : List BodyId} {id : ExprId} {path : Path}
      {source : Source} (around : plan.Walks query (body :: outer))
      (occurs : .reference id path ∈ (plan.body body).occurring)
      (resolved : plan.resolve? (body :: outer) path.base = some (binder, source)) :
      Parts (.expression (.reference id path)) [.source source.id]
  | call (id : ExprId) (function : Function) (args : List Expr) :
      Parts (.expression (.call id function args)) (args.map (.expr ·.id))
  | aggregate (id : ExprId) (function : Aggregate) (args : List Expr) (owner : BodyId) :
      Parts (.aggregate (.aggregate id function args) owner) (args.map (.expr ·.id))
  | subquery (id : ExprId) (body : BodyId) : Parts (.expression (.subquery id body)) [.body body]

variable {plan query}

/-- No object is a source that reads a query. -/
theorem Object.not_query {id : Identity} (h : plan.Object query id)
    (sourcesApart : plan.SourcesApart) {body : BodyId} {source : Source}
    (hmem : source ∈ (plan.body body).sources) (heq : id = .source source.id) (sub : BodyId) :
    source.origin ≠ .query sub := by
  intro hquery
  cases h with
  | body => cases heq
  | @collection body' source' ref reach mem origin =>
      obtain rfl := sourcesApart _ (body_mem_bodies mem) _ (body_mem_bodies hmem) source' mem source
        hmem (Identity.source.inj heq)
      rw [origin] at hquery
      cases hquery
  | expr => cases heq

end Plan

/-! ## Sketches -/

namespace Sketch

variable {plan : Plan} {query : BodyId} {s s' s'' : Sketch}

/-- Some nodes are those of some objects, one by one. -/
def NodesOf (s : Sketch) (ids : List Identity) (nodes : List NodeId) : Prop :=
  List.Forall₂ (fun id k => s.index.lookup id = some k) ids nodes

theorem NodesOf.single {id : Identity} {k : NodeId} (h : s.index.lookup id = some k) :
    s.NodesOf [id] [k] :=
  .cons h .nil

theorem NodesOf.extend {ids : List Identity} {nodes : List NodeId} (h : s.NodesOf ids nodes)
    (hgrow : s.Extends s') : s'.NodesOf ids nodes :=
  List.Forall₂.imp (fun id k => hgrow.index id k) h

/-- A node tells of an object, and its inputs are the nodes of what the object is made of. -/
def Composed (plan : Plan) (query : BodyId) (s : Sketch) (k : NodeId) : Prop :=
  ∃ kind ids, s.nodes[k]?.map Node.kind = some kind ∧ plan.Parts query kind ids ∧
    s.NodesOf ids (Node.inputsIn s.nodes k)

theorem Composed.extend {k : NodeId} (h : s.Composed plan query k) (hgrow : s.Extends s')
    (hinputs : Node.inputsIn s'.nodes k = Node.inputsIn s.nodes k) : s'.Composed plan query k := by
  obtain ⟨kind, ids, hkind, hparts, hnodes⟩ := h
  exact ⟨kind, ids, hgrow.kinds k kind hkind, hparts, by
    rw [hinputs]
    exact hnodes.extend hgrow⟩

/-- Nodes and objects belong together: no object has two nodes, and a source that reads a query has
the node of the query. -/
structure Exact (plan : Plan) (query : BodyId) (s : Sketch) : Prop where
  nodes : ∀ k kind, s.nodes[k]?.map Node.kind = some kind →
    plan.Shows query kind ∧ s.index.lookup kind.identity = some k
  index : ∀ id k, s.index.lookup id = some k →
    (∃ kind, s.nodes[k]?.map Node.kind = some kind ∧ kind.identity = id) ∨
      ∃ body, ∃ source ∈ (plan.body body).sources, id = .source source.id ∧
        ∃ sub, source.origin = .query sub
  queries : ∀ body, ∀ source ∈ (plan.body body).sources, ∀ sub, source.origin = .query sub →
    ∀ k, s.index.lookup (.source source.id) = some k → s.index.lookup (.body sub) = some k

namespace Exact

theorem empty (plan : Plan) (query : BodyId) : ({} : Sketch).Exact plan query where
  nodes k kind h := by simp at h
  index id k h := by cases h
  queries body source _ sub _ k h := by cases h

theorem link (h : s.Exact plan query) (node : NodeId) (dependent : Option NodeId) :
    (s.link node dependent).Exact plan query where
  nodes k kind hk := by
    rw [kinds_link] at hk
    rw [index_link]
    exact h.nodes k kind hk
  index id k hk := by
    rw [index_link] at hk
    rw [kinds_link]
    exact h.index id k hk
  queries body source hsource sub horigin k hk := by
    rw [index_link] at hk ⊢
    exact h.queries body source hsource sub horigin k hk

/-- An object gets its node. -/
theorem create (h : s.Exact plan query) {id : Identity} (hnew : s.index.lookup id = none)
    {kind : NodeKind} (hshows : plan.Shows query kind) (hid : kind.identity = id)
    (hsource : ∀ body, ∀ source ∈ (plan.body body).sources, id = .source source.id →
      ∀ sub, source.origin ≠ .query sub) (dependent : Option NodeId) :
    (s.create id kind dependent).Exact plan query where
  nodes k kind' hk := by
    rw [kinds_create] at hk
    rw [lookup_create]
    split at hk
    next hlast =>
      cases hk
      exact ⟨hshows, by rw [if_pos hid, hlast]⟩
    next =>
      obtain ⟨hshows', hlookup⟩ := h.nodes k kind' hk
      refine ⟨hshows', ?_⟩
      rw [if_neg, hlookup]
      rintro rfl
      rw [hnew] at hlookup
      cases hlookup
  index id' k hk := by
    rw [lookup_create] at hk
    split at hk
    next heq =>
      cases hk
      exact .inl ⟨kind, by rw [kinds_create, if_pos rfl], by rw [hid, heq]⟩
    next =>
      refine (h.index id' k hk).imp_left ?_
      rintro ⟨kind', hkind', hid'⟩
      exact ⟨kind', Labelled.kind_of_create hkind', hid'⟩
  queries body source hmem sub horigin k hk := by
    rw [lookup_create] at hk
    split at hk
    next heq => exact absurd horigin (hsource body source hmem heq.symm sub)
    next =>
      have hlookup := h.queries body source hmem sub horigin k hk
      rw [lookup_create, if_neg, hlookup]
      rintro rfl
      rw [hnew] at hlookup
      cases hlookup

/-- A source that reads a query gets the node of the query. -/
theorem register (h : s.Exact plan query) (sourcesApart : plan.SourcesApart) {owner sub : BodyId}
    {source : Source} (hmem : source ∈ (plan.body owner).sources)
    (horigin : source.origin = .query sub) {node : NodeId}
    (hnode : s.index.lookup (.body sub) = some node) :
    (s.register (.source source.id) node).Exact plan query where
  nodes k kind hk := by
    obtain ⟨hshows, hlookup⟩ := h.nodes k kind hk
    refine ⟨hshows, ?_⟩
    rw [lookup_register]
    split
    next heq =>
      -- the source would have a node of its own already, which is that of the query
      rw [heq] at hlookup
      rw [← hnode]
      exact h.queries owner source hmem sub horigin k hlookup
    next => exact hlookup
  index id k hk := by
    rw [lookup_register] at hk
    split at hk
    next heq => exact .inr ⟨owner, source, hmem, heq, sub, horigin⟩
    next => exact h.index id k hk
  queries body source' hmem' sub' horigin' k hk := by
    rw [lookup_register] at hk
    rw [lookup_register, if_neg nofun]
    split at hk
    next heq =>
      obtain rfl := sourcesApart _ (Plan.body_mem_bodies hmem') _ (Plan.body_mem_bodies hmem)
        source' hmem' source hmem (Identity.source.inj heq)
      rw [horigin] at horigin'
      cases horigin'
      rw [hnode, ← hk]
    next => exact h.queries body source' hmem' sub' horigin' k hk

/-- The node of an object is the only one that stands for it. -/
theorem identity_iff (h : s.Exact plan query) (sourcesApart : plan.SourcesApart) {id : Identity}
    (hobject : plan.Object query id) {j k : NodeId} (hk : s.index.lookup id = some k)
    {kind : NodeKind} (hkind : s.nodes[j]?.map Node.kind = some kind) :
    kind.identity = id ↔ j = k := by
  constructor
  · rintro rfl
    exact Option.some.inj ((h.nodes j kind hkind).2.symm.trans hk)
  · rintro rfl
    obtain ⟨kind', hkind', hid⟩ | ⟨body, source, hmem, heq, sub, horigin⟩ := h.index id j hk
    · rw [hkind] at hkind'
      rw [Option.some.inj hkind', hid]
    · exact absurd horigin (hobject.not_query sourcesApart hmem heq sub)

end Exact

theorem inputsIn_link_option (s : Sketch) (node : NodeId) {dependent : Option NodeId}
    (hdependent : ∀ d ∈ dependent, d < s.nodes.length) (k : NodeId) :
    Node.inputsIn (s.link node dependent).nodes k
      = Node.inputsIn s.nodes k ++ if dependent = some k then [node] else [] := by
  cases dependent with
  | none => simp
  | some d =>
      rw [inputsIn_link s (hdependent d rfl)]
      simp only [Option.some.injEq, eq_comm]

theorem inputsIn_create (s : Sketch) (id : Identity) (kind : NodeKind) {dependent : Option NodeId}
    (hdependent : ∀ d ∈ dependent, d < s.nodes.length) (k : NodeId) :
    Node.inputsIn (s.create id kind dependent).nodes k
      = Node.inputsIn s.nodes k ++ if dependent = some k then [s.nodes.length] else [] := by
  rw [create_eq, inputsIn_link_option _ _ fun d hd => ?_, inputsIn_added]
  rw [length_added]
  exact Nat.lt_succ_of_lt (hdependent d hd)

/-- A new source of a query may have got its node on the way; then it is the same. -/
theorem extends_register (h : s.Exact plan query) {owner sub : BodyId} {source : Source}
    (hmem : source ∈ (plan.body owner).sources) (horigin : source.origin = .query sub)
    {node : NodeId} (hnode : s.index.lookup (.body sub) = some node) :
    s.Extends (s.register (.source source.id) node) where
  length := Nat.le_refl _
  kinds _ _ hk := hk
  index id k hk := by
    rw [lookup_register]
    split
    next heq =>
      rw [heq] at hk
      rw [← hnode]
      exact h.queries owner source hmem sub horigin k hk
    next => exact hk
  inputs _ := List.prefix_rfl

/-- A sketch gains some objects: the dependent gets their nodes as inputs, the other old nodes
keep theirs, and the new ones have those of what they are made of. -/
structure Gains (plan : Plan) (query : BodyId) (dependent : Option NodeId) (ids : List Identity)
    (s s' : Sketch) : Prop where
  extend : s.Extends s'
  exact : s'.Exact plan query
  inputs : ∃ nodes, s'.NodesOf ids nodes ∧ ∀ k < s.nodes.length,
    Node.inputsIn s'.nodes k
      = Node.inputsIn s.nodes k ++ if dependent = some k then nodes else []
  made : ∀ k, s.nodes.length ≤ k → k < s'.nodes.length → s'.Composed plan query k

namespace Gains

variable {dependent : Option NodeId} {ids ids' : List Identity}

theorem refl (h : s.Exact plan query) (dependent : Option NodeId) :
    Gains plan query dependent [] s s where
  extend := .refl s
  exact := h
  inputs := ⟨[], .nil, fun k _ => by simp⟩
  made k hle hlt := absurd hlt (Nat.not_lt.2 hle)

/-- An object that has been met is linked. -/
theorem link (h : s.Exact plan query) {id : Identity} {node : NodeId}
    (known : s.index.lookup id = some node) (hdependent : ∀ d ∈ dependent, d < s.nodes.length) :
    Gains plan query dependent [id] s (s.link node dependent) where
  extend := extends_link s node hdependent
  exact := h.link node dependent
  inputs := by
    refine ⟨[node], .single (by rwa [index_link]), fun k _ => ?_⟩
    exact inputsIn_link_option s node hdependent k
  made k hle hlt := by
    rw [length_link] at hlt
    exact absurd hlt (Nat.not_lt.2 hle)

/-- Objects are met one after another for the same dependent. -/
theorem trans {d : NodeId} (h : Gains plan query (some d) ids s s')
    (h' : Gains plan query (some d) ids' s' s'') (hd : d < s.nodes.length) :
    Gains plan query (some d) (ids ++ ids') s s'' where
  extend := h.extend.trans h'.extend
  exact := h'.exact
  inputs := by
    obtain ⟨nodes, hnodes, hinputs⟩ := h.inputs
    obtain ⟨nodes', hnodes', hinputs'⟩ := h'.inputs
    refine ⟨nodes ++ nodes', List.rel_append (hnodes.extend h'.extend) hnodes', fun k hk => ?_⟩
    rw [hinputs' k (Nat.lt_of_lt_of_le hk h.extend.length), hinputs k hk]
    split <;> simp
  made k hle hlt := by
    rcases Nat.lt_or_ge k s'.nodes.length with hold | hnew
    · -- the node was made by the first visit, and is not the dependent of the second one
      obtain ⟨nodes', _, hinputs'⟩ := h'.inputs
      refine (h.made k hle hold).extend h'.extend ?_
      rw [hinputs' k hold, if_neg, List.append_nil]
      rintro ⟨⟩
      exact absurd hd (Nat.not_lt.2 hle)
    · exact h'.made k hnew hlt

/-- An object is met for the first time, and what it is made of is visited for its node. -/
theorem create {id : Identity} {kind : NodeKind} (hnew : s.index.lookup id = none)
    (hparts : plan.Parts query kind ids) (hdependent : ∀ d ∈ dependent, d < s.nodes.length)
    (h : Gains plan query (some s.nodes.length) ids (s.create id kind dependent) s') :
    Gains plan query dependent [id] s s' where
  extend := (extends_create kind hnew hdependent).trans h.extend
  exact := h.exact
  inputs := by
    obtain ⟨nodes, _, hinputs⟩ := h.inputs
    refine ⟨[s.nodes.length], .single ?_, fun k hk => ?_⟩
    · exact h.extend.index _ _ (by rw [lookup_create, if_pos rfl])
    · have hne : s.nodes.length ≠ k := Nat.ne_of_gt hk
      rw [hinputs k (by rw [length_create]; exact Nat.lt_succ_of_lt hk),
        if_neg (mt Option.some.inj hne), List.append_nil, inputsIn_create s id kind hdependent]
  made k hle hlt := by
    rcases Nat.lt_or_ge s.nodes.length k with hafter | hself
    · exact h.made k (by rw [length_create]; exact hafter) hlt
    · obtain rfl := Nat.le_antisymm hself hle
      obtain ⟨nodes, hnodes, hinputs⟩ := h.inputs
      have hempty : Node.inputsIn (s.create id kind dependent).nodes s.nodes.length = [] := by
        rw [inputsIn_create s id kind hdependent, Node.inputsIn_of_length_le (Nat.le_refl _),
          if_neg, List.nil_append]
        exact fun hd => Nat.lt_irrefl _ (hdependent _ hd)
      refine ⟨kind, ids, h.extend.kinds _ _ (by rw [kinds_create, if_pos rfl]), hparts, ?_⟩
      rw [hinputs _ (by simp), hempty, List.nil_append, if_pos rfl]
      exact hnodes

/-- A source that reads a query has the node of the query. -/
theorem register (sourcesApart : plan.SourcesApart) {owner sub : BodyId} {source : Source}
    (hmem : source ∈ (plan.body owner).sources) (horigin : source.origin = .query sub)
    {node : NodeId} (h : Gains plan query dependent [.body sub] s s')
    (hnode : s'.index.lookup (.body sub) = some node) :
    Gains plan query dependent [.source source.id] s (s'.register (.source source.id) node) where
  extend := h.extend.trans (extends_register h.exact hmem horigin hnode)
  exact := h.exact.register sourcesApart hmem horigin hnode
  inputs := by
    obtain ⟨nodes, hnodes, hinputs⟩ := h.inputs
    cases hnodes with
    | @cons _ k _ _ hk hrest =>
        cases hrest
        obtain rfl : node = k := Option.some.inj (hnode.symm.trans hk)
        exact ⟨[node], .single (by rw [lookup_register, if_pos rfl]), hinputs⟩
  made k hle hlt :=
    (h.made k hle hlt).extend (extends_register h.exact hmem horigin hnode) rfl

end Gains

end Sketch

/-! ## Visits -/

namespace Visited

/-- The objects that are visited. -/
def ids : Visited → List Identity
  | .body id _ => [.body id]
  | .source _ t => [.source t.id]
  | .sources _ ts => ts.map (.source ·.id)
  | .expr _ e => [.expr e.id]
  | .exprs _ es => es.map (.expr ·.id)

/-- The sources that are visited are those of a body below the query. -/
def Below (plan : Plan) (query : BodyId) : Visited → Prop
  | .source owner _ => Relation.ReflTransGen plan.Holds query owner
  | .sources owner _ => Relation.ReflTransGen plan.Holds query owner
  | _ => True

/-- The node that a visit of a body gives is that of the body. -/
def Answered (s : Sketch) : Visited → Prop
  | .body id node => s.index.lookup (.body id) = some node
  | _ => True

end Visited

namespace Visits

variable {plan : Plan} {query : BodyId} {walk : Walk} {visited : Visited}
  {dependent : Option NodeId} {s s' : Sketch}

open Sketch (Gains)

/-- A sketch gains by a visit what is visited. -/
theorem gains (h : Visits plan walk visited dependent s s') (sourcesApart : plan.SourcesApart)
    (hlies : visited.Lies plan query walk.scopes) (hbelow : visited.Below plan query)
    (hdependent : ∀ d ∈ dependent, d < s.nodes.length) (hs : s.Exact plan query) :
    Gains plan query dependent visited.ids s s' ∧ visited.Answered s' := by
  have hnone {id : ExprId} (body : BodyId) (source : Source) (_ : source ∈ (plan.body body).sources)
      (heq : Identity.expr id = .source source.id) (sub : BodyId) : source.origin ≠ .query sub := by
    cases heq
  -- the node of an expression is made in a body below the query
  have hexpr {s : Sketch} {owner : BodyId} {e : Expr} {walk : Walk} (hs : s.Exact plan query)
      (hlies : (Visited.expr owner e).Lies plan query walk.scopes)
      (new : s.index.lookup (.expr e.id) = none) (dependent : Option NodeId) :
      (s.create (.expr e.id) (e.kindIn owner) dependent).Exact plan query := by
    obtain ⟨hoccurs, outer, hscopes, hwalks⟩ := hlies
    rw [hscopes] at hwalks
    exact hs.create new (.expr (hwalks.reach owner List.mem_cons_self) hoccurs)
      (e.identity_kindIn owner) hnone dependent
  induction h with
  | knownBody known _ =>
      exact ⟨.link hs known hdependent, by rwa [Visited.Answered, Sketch.index_link]⟩
  | @newBody walk id dependent s s₁ s₂ new sources exprs joins ihSources ihExprs =>
      have hreach := hlies.reach id List.mem_cons_self
      have hlt : s.nodes.length < (s.create (.body id) (.selection id) dependent).nodes.length := by
        simp
      have hcreated : (s.create (.body id) (.selection id) dependent).Exact plan query :=
        hs.create new (.selection hreach) rfl (fun _ _ _ heq => by cases heq) dependent
      obtain ⟨hsources, _⟩ := ihSources
        (fun source hmem => ⟨hmem, fun sub horigin => .source hlies hmem horigin⟩) hreach
        (fun d hd => by cases hd; exact hlt) hcreated
      obtain ⟨hexprs, _⟩ := ihExprs
        (fun e he => ⟨(plan.body id).expressions_subset_occurring he, walk.scopes, rfl, hlies⟩)
        trivial (fun d hd => by cases hd; exact Nat.lt_of_lt_of_le hlt hsources.extend.length)
        hsources.exact
      have hboth := hsources.trans hexprs hlt
      exact ⟨.create new (.selection id) hdependent hboth,
        hboth.extend.index _ _ (by rw [Sketch.lookup_create, if_pos rfl])⟩
  | knownSource known _ => exact ⟨.link hs known hdependent, trivial⟩
  | @collection walk owner source ref dependent s new origin =>
      have hcreated := hs.create new (.collection hbelow hlies.1 origin) rfl
        (fun body source' hmem heq sub horigin => by
          obtain rfl := sourcesApart _ (Plan.body_mem_bodies hlies.1) _ (Plan.body_mem_bodies hmem)
            source hlies.1 source' hmem (Identity.source.inj heq)
          rw [origin] at horigin
          cases horigin) (some dependent)
      exact ⟨.create new (.collection ..) hdependent (.refl hcreated _), trivial⟩
  | @query walk owner source sub node dependent s s₁ new origin body ih =>
      obtain ⟨hbody, hnode⟩ := ih (hlies.2 sub origin) trivial hdependent hs
      exact ⟨hbody.register sourcesApart hlies.1 origin hnode, trivial⟩
  | noSources => exact ⟨.refl hs _, trivial⟩
  | @moreSources walk owner source rest dependent s s₁ s₂ first others ihFirst ihOthers =>
      obtain ⟨hfirst, _⟩ := ihFirst (hlies source List.mem_cons_self) hbelow hdependent hs
      obtain ⟨hothers, _⟩ := ihOthers (fun t ht => hlies t (List.mem_cons_of_mem _ ht)) hbelow
        (fun d hd => Nat.lt_of_lt_of_le (hdependent d hd) hfirst.extend.length) hfirst.exact
      exact ⟨hfirst.trans hothers (hdependent dependent rfl), trivial⟩
  | knownExpr known _ => exact ⟨.link hs known hdependent, trivial⟩
  | @literal walk owner id value dependent s new =>
      have hcreated := hexpr hs hlies new (some dependent)
      exact ⟨.create new (.literal id value) hdependent (.refl hcreated _), trivial⟩
  | @reference walk owner binder id path source dependent s s₁ new resolved origin ih =>
      have hcreated := hexpr hs hlies new (some dependent)
      obtain ⟨hoccurs, outer, hscopes, hwalks⟩ := hlies
      rw [hscopes] at hwalks resolved
      have hbinder := hwalks.reach binder (Plan.binder_mem_of_resolve? resolved)
      obtain ⟨hsource, _⟩ := ih ⟨(Plan.mem_of_resolve? resolved).1, fun sub horigin => by
        rw [hscopes]
        exact .reference hwalks hoccurs resolved horigin⟩ hbinder
        (fun d hd => by cases hd; simp) hcreated
      exact ⟨.create new (.reference hwalks hoccurs resolved) hdependent hsource, trivial⟩
  | @call walk owner id function args dependent s s₁ new arguments ih =>
      have hcreated := hexpr hs hlies new (some dependent)
      obtain ⟨hargs, _⟩ := ih
        (fun arg harg => ⟨Body.occurring_of_child hlies.1 harg, hlies.2⟩) trivial
        (fun d hd => by cases hd; simp) hcreated
      exact ⟨.create new (.call id function args) hdependent hargs, trivial⟩
  | @aggregate walk owner id function args dependent s s₁ new arguments ih =>
      have hcreated := hexpr hs hlies new (some dependent)
      obtain ⟨hargs, _⟩ := ih
        (fun arg harg => ⟨Body.occurring_of_child hlies.1 harg, hlies.2⟩) trivial
        (fun d hd => by cases hd; simp) hcreated
      exact ⟨.create new (.aggregate id function args owner) hdependent hargs, trivial⟩
  | @subquery walk owner id body node dependent s s₁ new selection ih =>
      have hcreated := hexpr hs hlies new (some dependent)
      obtain ⟨hoccurs, outer, hscopes, hwalks⟩ := hlies
      obtain ⟨hbody, _⟩ := ih (show plan.Walks query (body :: walk.scopes) by
        rw [hscopes] at hwalks ⊢
        exact .subquery hwalks hoccurs) trivial (fun d hd => by cases hd; simp) hcreated
      exact ⟨.create new (.subquery id body) hdependent hbody, trivial⟩
  | noExprs => exact ⟨.refl hs _, trivial⟩
  | @moreExprs walk owner e rest dependent s s₁ s₂ first others ihFirst ihOthers =>
      obtain ⟨hfirst, _⟩ := ihFirst (hlies e List.mem_cons_self) trivial hdependent hs
      obtain ⟨hothers, _⟩ := ihOthers (fun t ht => hlies t (List.mem_cons_of_mem _ ht)) trivial
        (fun d hd => Nat.lt_of_lt_of_le (hdependent d hd) hfirst.extend.length) hfirst.exact
      exact ⟨hfirst.trans hothers (hdependent dependent rfl), trivial⟩

end Visits

/-! ## Graphs -/

/-- A graph is the image of a query. -/
structure Graph.Depicts (plan : Plan) (query : BodyId) (g : Graph) : Prop where
  /-- An object has one node. -/
  objects : ∀ id, plan.Object query id → ∃ k < g.size, g.nodeOf? id = some k ∧
    ∀ j < g.size, (g.node j).kind.identity = id ↔ j = k
  /-- A source that reads a query has the node of the query. -/
  queries : ∀ body, Relation.ReflTransGen plan.Holds query body →
    ∀ source ∈ (plan.body body).sources, ∀ sub, source.origin = .query sub →
      ∃ k, g.nodeOf? (.source source.id) = some k ∧ g.nodeOf? (.body sub) = some k
  /-- A node is that of an object. -/
  nodes : ∀ k < g.size, plan.Shows query (g.node k).kind
  /-- The inputs of a node are the nodes of what its object is made of. -/
  inputs : ∀ k < g.size, ∃ ids, plan.Parts query (g.node k).kind ids ∧
    List.Forall₂ (fun id i => g.nodeOf? id = some i) ids (g.node k).dependsOn
  /-- The edges are kept at both ends. -/
  dependents : ∀ i j, (g.node i).dependedUpon.count j = (g.node j).dependsOn.count i

namespace Plan

variable {plan : Plan} {query : BodyId} {g : Graph}

/-- The graph of an accepted query is its image. -/
theorem depicts_of_graph (accepted : plan.graph query = .ok g) (sourcesApart : plan.SourcesApart)
    (exprsApart : plan.ExprsApart) : g.Depicts plan query := by
  obtain ⟨s, hvisits, hnodes, hindex⟩ := visits_of_graph accepted
  obtain ⟨hgains, -⟩ := hvisits.gains sourcesApart Walks.root trivial (fun d hd => by cases hd)
    (.empty plan query)
  obtain ⟨hsound, -, -⟩ := hvisits.sound .empty (fun d hd => by cases hd) (fun _ => rfl)
  have hexplored := hvisits.explores sourcesApart exprsApart Walks.root (.empty plan query)
  have hsize : g.size = s.nodes.length := by rw [Graph.size, hnodes]
  have hlookup : ∀ id, g.nodeOf? id = s.index.lookup id := fun id => by
    rw [Graph.nodeOf?, hindex]
  have hkind : ∀ k < g.size, s.nodes[k]?.map Node.kind = some (g.node k).kind := by
    intro k hk
    rw [Graph.node, List.getD_eq_getElem?_getD, ← hnodes, List.getElem?_eq_getElem hk]
    rfl
  have hbody : ∀ {body}, Relation.ReflTransGen plan.Holds query body → s.Has (.body body) := by
    intro body hreach
    obtain ⟨outer, hnests⟩ := exists_nests_of_reach hreach
    exact hexplored.has_of_nests hvisits.met hnests
  have hsource : ∀ {body}, Relation.ReflTransGen plan.Holds query body →
      ∀ source ∈ (plan.body body).sources, s.Has (.source source.id) :=
    fun hreach => (hexplored.bodies _ (hbody hreach) List.not_mem_nil).1
  refine ⟨fun id hobject => ?_, fun body hreach source hmem sub horigin => ?_, fun k hk => ?_,
    fun k hk => ?_, fun i j => ?_⟩
  · obtain ⟨k, hk⟩ : s.Has id := by
      cases hobject with
      | body reach => exact hbody reach
      | collection reach mem origin => exact hsource reach _ mem
      | expr reach occurs => exact hexplored.has_of_occurring (hbody reach) occurs
    exact ⟨k, hsize ▸ hsound.indexed id k hk, by rw [hlookup, hk],
      fun j hj => hgains.exact.identity_iff sourcesApart hobject hk (hkind j hj)⟩
  · obtain ⟨k, hk⟩ := hsource hreach source hmem
    exact ⟨k, by rw [hlookup, hk],
      by rw [hlookup, hgains.exact.queries body source hmem sub horigin k hk]⟩
  · exact (hgains.exact.nodes k _ (hkind k hk)).1
  · obtain ⟨kind, ids, hkind', hparts, hids⟩ :=
      hgains.made k (Nat.zero_le k) (hnodes ▸ hk)
    rw [hkind k hk] at hkind'
    rw [Option.some.inj hkind', g.dependsOn_node, hnodes]
    exact ⟨ids, hparts, hids.imp fun id i hi => by rw [hlookup, hi]⟩
  · rw [g.dependedUpon_node, g.dependsOn_node, hnodes]
    exact hsound.mirrored i j

/-- A query over another one, which compares a field with itself and selects it too. -/
def selfCompared : Plan :=
  ({} : Plan).write
    [[.openBody, .bind "row" (.collection ⟨0, "rows"⟩) none, .selectValue (.ref ⟨1, ⟨"row", []⟩⟩),
      .closeBody, .bind "r" (.query 1) none,
      .onFields ⟨0, ⟨"r", []⟩⟩ [("x", .ref ⟨0, ⟨"r", ["x"]⟩⟩)],
      .select [.field "x" (.ref ⟨0, ⟨"r", ["x"]⟩⟩)]]]

/-- The field is one node with three uses, two of them in the comparison. -/
theorem depicts_of_graph_self_compared :
    selfCompared.SourcesApart ∧ selfCompared.ExprsApart ∧ ∃ g, selfCompared.graph 0 = .ok g ∧
      g.Depicts selfCompared 0 ∧
      (g.nodes.map fun node => (node.dependsOn, node.dependedUpon)) =
        [([1, 4, 5], []), ([2, 3], [0, 4]), ([], [1, 3]), ([2], [1]), ([1], [0, 5, 5]),
          ([4, 4], [0])] := by
  have hwritten : selfCompared.Written := written_write ⟨[], .first⟩ (by decide +kernel)
  obtain ⟨g, hgraph, hedges⟩ : ∃ g, selfCompared.graph 0 = .ok g ∧
      (g.nodes.map fun node => (node.dependsOn, node.dependedUpon)) =
        [([1, 4, 5], []), ([2, 3], [0, 4]), ([], [1, 3]), ([2], [1]), ([1], [0, 5, 5]),
          ([4, 4], [0])] :=
    Except.exists_of_toOption (by decide +kernel)
  exact ⟨hwritten.sourcesApart, hwritten.exprsApart, g, hgraph,
    depicts_of_graph hgraph hwritten.sourcesApart hwritten.exprsApart, hedges⟩

end Plan

end LiveQuery
