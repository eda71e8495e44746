import LiveQuery.Proofs.Graph.Cycles

/-!
# What nodes stand for

The node of an expression stands for it, and an expression has one node, however often it is used.
An aggregate gets its node where it is met first, and the node names the body in which this was.

**Results.** `Visits.labels`: the nodes of a walk stand for what they were made for.
`Plan.occurs_of_aggregatesOf`: the aggregates that are computed over the groups of a body occur
in it.
-/

namespace LiveQuery

/-- The kind of the node of an expression that occurs in a body. An aggregate is computed over the
groups of that body. -/
def Expr.kindIn (e : Expr) (owner : BodyId) : NodeKind :=
  if e.isAggregate then .aggregate e owner else .expression e

/-- The node of an expression is of the kind that the expression has in one of the bodies in which
it occurs, and an aggregate has one node only. -/
structure Sketch.Labelled (plan : Plan) (s : Sketch) : Prop where
  exprs : ∀ id k, s.index.lookup (.expr id) = some k → ∃ e owner, e.id = id ∧
    e ∈ (plan.body owner).occurring ∧ s.Has (.body owner) ∧
      s.nodes[k]?.map Node.kind = some (e.kindIn owner)
  aggregates : ∀ k e owner, s.nodes[k]?.map Node.kind = some (.aggregate e owner) →
    s.index.lookup (.expr e.id) = some k

namespace Sketch.Labelled

variable {plan : Plan} {s s' : Sketch}

theorem empty (plan : Plan) : ({} : Sketch).Labelled plan where
  exprs id k h := by cases h
  aggregates k e owner h := by simp at h

theorem link (h : s.Labelled plan) (node : NodeId) (dependent : Option NodeId) :
    (s.link node dependent).Labelled plan where
  exprs id k hk := by
    rw [index_link] at hk
    obtain ⟨e, owner, hid, hoccurs, hhas, hkind⟩ := h.exprs id k hk
    exact ⟨e, owner, hid, hoccurs, (has_link _ _ _ _).2 hhas, by rw [kinds_link, hkind]⟩
  aggregates k e owner hk := by
    rw [kinds_link] at hk
    rw [index_link]
    exact h.aggregates k e owner hk

theorem register (h : s.Labelled plan) (id : SourceId) (node : NodeId) :
    (s.register (.source id) node).Labelled plan where
  exprs id' k hk := by
    rw [lookup_register, if_neg (by simp)] at hk
    obtain ⟨e, owner, hid, hoccurs, hhas, hkind⟩ := h.exprs id' k hk
    exact ⟨e, owner, hid, hoccurs, (has_register _ _ _ _).2 (.inr hhas), hkind⟩
  aggregates k e owner hk := by
    rw [lookup_register, if_neg (by simp)]
    exact h.aggregates k e owner hk

/-- The kind of an old node is what it was. -/
theorem kind_of_create {id : Identity} {kind : NodeKind} {dependent : Option NodeId} {k : NodeId}
    {old : NodeKind} (hk : s.nodes[k]?.map Node.kind = some old) :
    (s.create id kind dependent).nodes[k]?.map Node.kind = some old := by
  rw [kinds_create, if_neg, hk]
  rintro rfl
  simp at hk

theorem create (h : s.Labelled plan) {id : Identity} (hnew : s.index.lookup id = none)
    {kind : NodeKind} (dependent : Option NodeId)
    (hexpr : ∀ id', id = .expr id' → ∃ e owner, e.id = id' ∧ e ∈ (plan.body owner).occurring ∧
      s.Has (.body owner) ∧ kind = e.kindIn owner)
    (haggregate : ∀ e owner, kind = .aggregate e owner → id = .expr e.id) :
    (s.create id kind dependent).Labelled plan where
  exprs id' k hk := by
    rw [lookup_create] at hk
    split at hk
    next heq =>
      obtain ⟨e, owner, hid, hoccurs, hhas, rfl⟩ := hexpr id' heq.symm
      cases hk
      exact ⟨e, owner, hid, hoccurs, (has_create _ _ _ _ _).2 (.inr hhas), by
        rw [kinds_create, if_pos rfl]⟩
    next =>
      obtain ⟨e, owner, hid, hoccurs, hhas, hkind⟩ := h.exprs id' k hk
      exact ⟨e, owner, hid, hoccurs, (has_create _ _ _ _ _).2 (.inr hhas), kind_of_create hkind⟩
  aggregates k e owner hk := by
    rw [kinds_create] at hk
    rw [lookup_create]
    split at hk
    next hlast =>
      cases hk
      rw [if_pos (haggregate e owner rfl).symm, hlast]
    next =>
      have hold := h.aggregates k e owner hk
      rw [if_neg, hold]
      rintro rfl
      rw [hnew] at hold
      cases hold

/-- The node of an expression is made. -/
theorem createExpr (h : s.Labelled plan) {e : Expr} {owner : BodyId}
    (hnew : s.index.lookup (.expr e.id) = none) (hoccurs : e ∈ (plan.body owner).occurring)
    (hhas : s.Has (.body owner)) (dependent : Option NodeId) :
    (s.create (.expr e.id) (e.kindIn owner) dependent).Labelled plan := by
  refine h.create hnew dependent (fun id' heq => ?_) fun e' owner' heq => ?_
  · cases heq
    exact ⟨e, owner, rfl, hoccurs, hhas, rfl⟩
  · unfold Expr.kindIn at heq
    split at heq <;> cases heq
    rfl

end Sketch.Labelled

/-- The body in which expressions are visited. -/
def Visited.owner? : Visited → Option BodyId
  | .expr owner _ => some owner
  | .exprs owner _ => some owner
  | _ => none

namespace Visits

variable {plan : Plan} {walk : Walk} {visited : Visited} {dependent : Option NodeId}
  {s s' : Sketch}

theorem labels (h : Visits plan walk visited dependent s s') (hbelongs : visited.Belongs plan)
    (howner : ∀ owner ∈ visited.owner?, s.Has (.body owner)) (hs : s.Labelled plan) :
    s'.Labelled plan := by
  induction h with
  | knownBody => exact hs.link _ _
  | @newBody walk id dependent s s₁ s₂ new sources exprs joins ihSources ihExprs =>
      have hcreated : (s.create (.body id) (.selection id) dependent).Labelled plan :=
        hs.create new dependent (fun _ heq => by cases heq) fun _ _ heq => by cases heq
      have hs₁ := ihSources (fun _ ht => ht) (fun _ heq => by cases heq) hcreated
      refine ihExprs (fun e he => (plan.body id).expressions_subset_occurring he) ?_ hs₁
      rintro _ ⟨⟩
      exact sources.has ((Sketch.has_create _ _ _ _ _).2 (.inl rfl))
  | knownSource => exact hs.link _ _
  | collection new _ =>
      exact hs.create new _ (fun _ heq => by cases heq) fun _ _ heq => by cases heq
  | query _ _ _ ih => exact (ih trivial (fun _ heq => by cases heq) hs).register _ _
  | noSources => exact hs
  | @moreSources walk owner source rest dependent s s₁ s₂ first others ihFirst ihOthers =>
      have hs₁ := ihFirst (hbelongs source List.mem_cons_self) (fun _ heq => by cases heq) hs
      exact ihOthers (fun t ht => hbelongs t (List.mem_cons_of_mem _ ht))
        (fun _ heq => by cases heq) hs₁
  | knownExpr => exact hs.link _ _
  | @literal walk owner id value dependent s new =>
      exact hs.createExpr (e := .literal id value) new hbelongs (howner _ rfl) _
  | @reference walk owner binder id path source dependent s s₁ new resolved origin ih =>
      refine ih (Plan.mem_of_resolve? resolved).1 (fun _ heq => by cases heq) ?_
      exact hs.createExpr (e := .reference id path) new hbelongs (howner _ rfl) _
  | @call walk owner id function args dependent s s₁ new arguments ih =>
      refine ih (fun arg harg => Body.occurring_of_child hbelongs harg) ?_
        (hs.createExpr (e := .call id function args) new hbelongs (howner _ rfl) _)
      rintro _ ⟨⟩
      exact (Sketch.has_create _ _ _ _ _).2 (.inr (howner _ rfl))
  | @aggregate walk owner id function args dependent s s₁ new arguments ih =>
      refine ih (fun arg harg => Body.occurring_of_child hbelongs harg) ?_
        (hs.createExpr (e := .aggregate id function args) new hbelongs (howner _ rfl) _)
      rintro _ ⟨⟩
      exact (Sketch.has_create _ _ _ _ _).2 (.inr (howner _ rfl))
  | @subquery walk owner id body node dependent s s₁ new selection ih =>
      exact ih trivial (fun _ heq => by cases heq)
        (hs.createExpr (e := .subquery id body) new hbelongs (howner _ rfl) _)
  | noExprs => exact hs
  | @moreExprs walk owner e rest dependent s s₁ s₂ first others ihFirst ihOthers =>
      have hs₁ := ihFirst (hbelongs e List.mem_cons_self) howner hs
      refine ihOthers (fun t ht => hbelongs t (List.mem_cons_of_mem _ ht)) ?_ hs₁
      rintro _ ⟨⟩
      exact first.has (howner _ rfl)

end Visits

/-! ## Aggregates -/

namespace Graph

/-- A node of a graph is an aggregate over the groups of a body. -/
def Aggregates (g : Graph) (k : NodeId) (e : Expr) (owner : BodyId) : Prop :=
  (g.node k).kind = .aggregate e owner

theorem aggregates_iff_kind {g : Graph} {k : NodeId} {e : Expr} {owner : BodyId} :
    g.Aggregates k e owner ↔ g.nodes[k]?.map Node.kind = some (.aggregate e owner) := by
  unfold Aggregates node
  rw [List.getD_eq_getElem?_getD]
  cases g.nodes[k]? with
  | none => exact ⟨nofun, nofun⟩
  | some n => exact ⟨fun h => congrArg some h, fun h => Option.some.inj h⟩

theorem mem_aggregatesOf {g : Graph} {body : BodyId} {e : Expr} :
    e ∈ g.aggregatesOf body ↔ ∃ k ∈ g.order, g.Aggregates k e body := by
  unfold aggregatesOf
  rw [List.mem_filterMap]
  refine exists_congr fun k => and_congr_right fun _ => ?_
  unfold Aggregates
  cases (g.node k).kind with
  | aggregate e' owner =>
      by_cases howner : owner = body
      · simp [howner]
      · simp [howner]
  | _ => simp

end Graph

namespace Plan

variable {plan : Plan} {query : BodyId} {g : Graph}

theorem labelled_of_graph (accepted : plan.graph query = .ok g) :
    ∃ s, Visits plan {} (.body query g.root) none {} s ∧ g.nodes = s.nodes ∧ g.index = s.index ∧
      s.Labelled plan := by
  obtain ⟨s, hvisits, hnodes, hindex⟩ := visits_of_graph accepted
  exact ⟨s, hvisits, hnodes, hindex,
    hvisits.labels trivial (fun _ heq => by cases heq) (.empty plan)⟩

/-- The node of an aggregate is that of an expression that occurs in its body, which has a node. -/
theorem occurs_of_aggregates (accepted : plan.graph query = .ok g) {k : NodeId} {e : Expr}
    {owner : BodyId} (h : g.Aggregates k e owner) :
    e.isAggregate = true ∧ e ∈ (plan.body owner).occurring ∧
      ∃ j, g.nodeOf? (.body owner) = some j := by
  obtain ⟨s, _, hnodes, hindex, hlabelled⟩ := labelled_of_graph accepted
  have hkind : s.nodes[k]?.map Node.kind = some (.aggregate e owner) :=
    hnodes ▸ Graph.aggregates_iff_kind.1 h
  obtain ⟨e', owner', _, hoccurs, hhas, hsame⟩ :=
    hlabelled.exprs _ _ (hlabelled.aggregates _ _ _ hkind)
  rw [hkind] at hsame
  have hsame := Option.some.inj hsame
  unfold Expr.kindIn at hsame
  split at hsame
  next hagg =>
    cases hsame
    exact ⟨hagg, hoccurs, by rw [Graph.nodeOf?, hindex]; exact hhas⟩
  next => cases hsame

theorem occurs_of_aggregatesOf (accepted : plan.graph query = .ok g) {body : BodyId} {e : Expr}
    (h : e ∈ g.aggregatesOf body) : e.isAggregate = true ∧ e ∈ (plan.body body).occurring := by
  obtain ⟨k, _, hk⟩ := Graph.mem_aggregatesOf.1 h
  obtain ⟨hagg, hoccurs, _⟩ := occurs_of_aggregates accepted hk
  exact ⟨hagg, hoccurs⟩

end Plan

end LiveQuery
