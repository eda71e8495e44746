import LiveQuery.Proofs.Graph.Root
import LiveQuery.Proofs.Plan.Occurrences

/-!
# Which aliases are bound

An object of a plan is walked where it is first met, and only there the alias of a reference is
looked up in the bodies around. A reference, or a body, that is met again somewhere else is
taken as it is. So every reference of an accepted query has its alias bound along one of the
ways that lead to it; it is bound along all of them just if they agree on it.

**Results.** `Visits.met` and `Visits.explores`: walking a query meets all that it is made of.
`resolves_iff`: when the aliases of an accepted query are bound; `resolves_iff_fails` is an accepted
query where one is not.
-/

namespace LiveQuery

namespace Plan

variable (plan : Plan) (query : BodyId)

/-- The bodies along a way into a query, the innermost first: a body holds the bodies of its
sources and of its subqueries. -/
inductive Nests : List BodyId → Prop
  | root : Nests [query]
  | source {body sub : BodyId} {outer : List BodyId} {source : Source}
      (around : Nests (body :: outer)) (mem : source ∈ (plan.body body).sources)
      (origin : source.origin = .query sub) : Nests (sub :: body :: outer)
  | subquery {body sub : BodyId} {outer : List BodyId} {id : ExprId}
      (around : Nests (body :: outer)) (occurs : .subquery id sub ∈ (plan.body body).occurring) :
      Nests (sub :: body :: outer)

/-- The bodies along a way on which a query is walked. A reference leads to the source that
its alias stands for besides. -/
inductive Walks : List BodyId → Prop
  | root : Walks [query]
  | source {body sub : BodyId} {outer : List BodyId} {source : Source}
      (around : Walks (body :: outer)) (mem : source ∈ (plan.body body).sources)
      (origin : source.origin = .query sub) : Walks (sub :: body :: outer)
  | subquery {body sub : BodyId} {outer : List BodyId} {id : ExprId}
      (around : Walks (body :: outer)) (occurs : .subquery id sub ∈ (plan.body body).occurring) :
      Walks (sub :: body :: outer)
  | reference {body sub binder : BodyId} {outer : List BodyId} {id : ExprId} {path : Path}
      {source : Source} (around : Walks (body :: outer))
      (occurs : .reference id path ∈ (plan.body body).occurring)
      (resolved : plan.resolve? (body :: outer) path.base = some (binder, source))
      (origin : source.origin = .query sub) : Walks (sub :: body :: outer)

/-- An alias is bound by a source of one of some bodies. -/
def Bound (bodies : List BodyId) (name : String) : Prop :=
  ∃ body ∈ bodies, (plan.body body).binds name = true

/-- Along every way into the query, each reference has its alias bound. -/
def Resolves : Prop :=
  ∀ body outer, plan.Nests query (body :: outer) → ∀ id path,
    .reference id path ∈ (plan.body body).occurring → plan.Bound (body :: outer) path.base

/-- When the alias of a reference is bound along one way, it is along every other one. -/
def Agrees : Prop :=
  ∀ id path body' outer', plan.Walks query (body' :: outer') →
    .reference id path ∈ (plan.body body').occurring → plan.Bound (body' :: outer') path.base →
      ∀ body outer, plan.Nests query (body :: outer) →
        .reference id path ∈ (plan.body body).occurring → plan.Bound (body :: outer) path.base

variable {plan query}

theorem mem_of_resolve? {scopes : List BodyId} {name : String} {binder : BodyId} {source : Source}
    (h : plan.resolve? scopes name = some (binder, source)) :
    source ∈ (plan.body binder).sources ∧ plan.Bound scopes name := by
  obtain ⟨body, hbody, hsource⟩ := List.exists_of_findSome?_eq_some h
  obtain ⟨source', hfound, heq⟩ := Option.map_eq_some_iff.1 hsource
  obtain ⟨rfl, rfl⟩ := Prod.mk.inj heq
  unfold Body.source? at hfound
  have hmem := List.mem_of_find?_eq_some hfound
  have hname := List.find?_some hfound
  exact ⟨hmem, body, hbody, List.any_eq_true.2 ⟨source', hmem, hname⟩⟩

/-- In an accepted query whose aliases are all bound, no body reads an alias that the bodies
around it do not bind. -/
theorem Resolves.bound_of_free (h : plan.Resolves query) {depth : Nat} {body : BodyId}
    {outer : List BodyId} (hnests : plan.Nests query (body :: outer)) {name : String}
    (hfree : name ∈ plan.freeWithin depth body) : plan.Bound outer name := by
  induction depth generalizing body outer with
  | zero => cases hfree
  | succ depth ih =>
      unfold freeWithin at hfree
      obtain ⟨hread, hunbound⟩ := List.mem_filter.1 (List.mem_eraseDups.1 hfree)
      have hbound : plan.Bound (body :: outer) name := by
        rcases List.mem_append.1 hread with hexpr | hsource
        · obtain ⟨top, htop, hread⟩ := List.mem_flatMap.1 hexpr
          obtain ⟨e, he, hname⟩ := List.mem_flatMap.1 hread
          have hoccurs : e ∈ (plan.body body).occurring := List.mem_flatMap.2 ⟨top, htop, he⟩
          cases e with
          | reference id path =>
              rw [List.mem_singleton.1 hname]
              exact h body outer hnests id path hoccurs
          | subquery id sub => exact ih (.subquery hnests hoccurs) hname
          | _ => cases hname
        · obtain ⟨source, hmem, hname⟩ := List.mem_flatMap.1 hsource
          cases horigin : source.origin with
          | collection ref =>
              rw [horigin] at hname
              cases hname
          | query sub =>
              rw [horigin] at hname
              exact ih (.source hnests hmem horigin) hname
      obtain ⟨binder, hmem, hbinds⟩ := hbound
      rcases List.mem_cons.1 hmem with rfl | hmem
      · rw [hbinds] at hunbound
        cases hunbound
      · exact ⟨binder, hmem, hbinds⟩

/-- The outermost body of such a query is not correlated. -/
theorem Resolves.not_correlated (h : plan.Resolves query) : plan.isCorrelated query = false := by
  have hnone : plan.freeAliases query = [] := List.eq_nil_iff_forall_not_mem.2 fun name hname => by
    obtain ⟨_, hmem, _⟩ := h.bound_of_free .root hname
    cases hmem
  rw [isCorrelated, hnone]
  rfl

end Plan

/-! ## What has been met -/

namespace Sketch

/-- An object has its node. -/
def Has (s : Sketch) (id : Identity) : Prop :=
  ∃ node, s.index.lookup id = some node

theorem has_link (s : Sketch) (node : NodeId) (dependent : Option NodeId) (id : Identity) :
    (s.link node dependent).Has id ↔ s.Has id := by
  rw [Has, index_link]
  rfl

theorem has_register (s : Sketch) (id : Identity) (node : NodeId) (id' : Identity) :
    (s.register id node).Has id' ↔ id' = id ∨ s.Has id' := by
  rw [Has, lookup_register]
  by_cases h : id' = id
  · simp [h]
  · simp [h, Has]

theorem has_create (s : Sketch) (id : Identity) (kind : NodeKind) (dependent : Option NodeId)
    (id' : Identity) : (s.create id kind dependent).Has id' ↔ id' = id ∨ s.Has id' := by
  rw [Has, lookup_create]
  by_cases h : id' = id
  · simp [h]
  · simp [h, Has]

/-- What belongs to an object that has been walked has been met as well. The references that
have been met have their aliases bound along a way that was walked. -/
structure Explored (plan : Plan) (query : BodyId) (active : List Identity) (s : Sketch) : Prop where
  bodies : ∀ id, s.Has (.body id) → .body id ∉ active →
    (∀ source ∈ (plan.body id).sources, s.Has (.source source.id)) ∧
      ∀ e ∈ (plan.body id).expressions, s.Has (.expr e.id)
  sources : ∀ body, ∀ source ∈ (plan.body body).sources, s.Has (.source source.id) →
    ∀ sub, source.origin = .query sub → s.Has (.body sub)
  exprs : ∀ body, ∀ e ∈ (plan.body body).occurring, s.Has (.expr e.id) → .expr e.id ∉ active →
    (∀ arg ∈ e.children, s.Has (.expr arg.id)) ∧
      ∀ id sub, e = .subquery id sub → s.Has (.body sub)
  references : ∀ body id path, .reference id path ∈ (plan.body body).occurring → s.Has (.expr id) →
    ∃ body' outer, plan.Walks query (body' :: outer) ∧
      .reference id path ∈ (plan.body body').occurring ∧ plan.Bound (body' :: outer) path.base

namespace Explored

variable {plan : Plan} {query : BodyId} {active : List Identity} {s s' : Sketch}

theorem empty (plan : Plan) (query : BodyId) : Explored plan query [] {} where
  bodies id h := by obtain ⟨_, h⟩ := h; cases h
  sources body source _ h := by obtain ⟨_, h⟩ := h; cases h
  exprs body e _ h := by obtain ⟨_, h⟩ := h; cases h
  references body id path _ h := by obtain ⟨_, h⟩ := h; cases h

theorem of_same (h : Explored plan query active s) (hhas : ∀ id, s'.Has id ↔ s.Has id) :
    Explored plan query active s' where
  bodies id hid hactive := by
    simp only [hhas] at hid ⊢
    exact h.bodies id hid hactive
  sources body source hmem hsource sub horigin := by
    rw [hhas] at hsource ⊢
    exact h.sources body source hmem hsource sub horigin
  exprs body e he hexpr hactive := by
    simp only [hhas] at hexpr ⊢
    exact h.exprs body e he hexpr hactive
  references body id path hoccurs hid := h.references body id path hoccurs ((hhas _).1 hid)

/-- A body is met for the first time. -/
theorem beginBody (h : Explored plan query active s) {id : BodyId}
    (hhas : ∀ k, s'.Has k ↔ k = .body id ∨ s.Has k) :
    Explored plan query (.body id :: active) s' where
  bodies id' hid hactive := by
    obtain ⟨hne, hactive⟩ := not_or.1 (mt List.mem_cons.2 hactive)
    obtain ⟨hsources, hexprs⟩ := h.bodies id' (((hhas _).1 hid).resolve_left hne) hactive
    exact ⟨fun source hmem => (hhas _).2 (.inr (hsources source hmem)),
      fun e he => (hhas _).2 (.inr (hexprs e he))⟩
  sources body source hmem hsource sub horigin := by
    have hbefore := ((hhas _).1 hsource).resolve_left fun heq => by cases heq
    exact (hhas _).2 (.inr (h.sources body source hmem hbefore sub horigin))
  exprs body e he hexpr hactive := by
    have hbefore := ((hhas _).1 hexpr).resolve_left fun heq => by cases heq
    obtain ⟨hargs, hsubs⟩ := h.exprs body e he hbefore (List.not_mem_of_not_mem_cons hactive)
    exact ⟨fun arg harg => (hhas _).2 (.inr (hargs arg harg)),
      fun id' sub heq => (hhas _).2 (.inr (hsubs id' sub heq))⟩
  references body id' path hoccurs hid :=
    h.references body id' path hoccurs (((hhas _).1 hid).resolve_left fun heq => by cases heq)

/-- All of a body has been walked. -/
theorem endBody {id : BodyId} (h : Explored plan query (.body id :: active) s)
    (hsources : ∀ source ∈ (plan.body id).sources, s.Has (.source source.id))
    (hexprs : ∀ e ∈ (plan.body id).expressions, s.Has (.expr e.id)) :
    Explored plan query active s where
  bodies id' hid hactive := by
    by_cases heq : id' = id
    · exact heq ▸ ⟨hsources, hexprs⟩
    · refine h.bodies id' hid (List.not_mem_cons_of_ne_of_not_mem (fun hbody => heq ?_) hactive)
      exact Identity.body.inj hbody
  sources := h.sources
  exprs body e he hexpr hactive :=
    h.exprs body e he hexpr (List.not_mem_cons_of_ne_of_not_mem (fun heq => by cases heq) hactive)
  references := h.references

/-- A source is met for the first time. -/
theorem addSource (h : Explored plan query active s) (apart : plan.SourcesApart) {owner : BodyId}
    {source : Source} (hmem : source ∈ (plan.body owner).sources)
    (hhas : ∀ k, s'.Has k ↔ k = .source source.id ∨ s.Has k)
    (hquery : ∀ sub, source.origin = .query sub → s.Has (.body sub)) :
    Explored plan query active s' where
  bodies id hid hactive := by
    have hbefore := ((hhas _).1 hid).resolve_left fun heq => by cases heq
    obtain ⟨hsources, hexprs⟩ := h.bodies id hbefore hactive
    exact ⟨fun source hmem => (hhas _).2 (.inr (hsources source hmem)),
      fun e he => (hhas _).2 (.inr (hexprs e he))⟩
  sources body source' hmem' hsource sub horigin := by
    refine (hhas _).2 (.inr ?_)
    rcases (hhas _).1 hsource with heq | hbefore
    · have hsame : source' = source :=
        apart _ (Plan.body_mem_bodies hmem') _ (Plan.body_mem_bodies hmem) _ hmem' _ hmem
          (Identity.source.inj heq)
      exact hquery sub (hsame ▸ horigin)
    · exact h.sources body source' hmem' hbefore sub horigin
  exprs body e he hexpr hactive := by
    have hbefore := ((hhas _).1 hexpr).resolve_left fun heq => by cases heq
    obtain ⟨hargs, hsubs⟩ := h.exprs body e he hbefore hactive
    exact ⟨fun arg harg => (hhas _).2 (.inr (hargs arg harg)),
      fun id' sub heq => (hhas _).2 (.inr (hsubs id' sub heq))⟩
  references body id path hoccurs hid :=
    h.references body id path hoccurs (((hhas _).1 hid).resolve_left fun heq => by cases heq)

/-- An expression is met for the first time; if it is a reference, its alias is bound. -/
theorem beginExpr (h : Explored plan query active s) (apart : plan.ExprsApart) {owner : BodyId}
    {e : Expr} (he : e ∈ (plan.body owner).occurring)
    (hhas : ∀ k, s'.Has k ↔ k = .expr e.id ∨ s.Has k)
    (hbound : ∀ id path, e = .reference id path → ∃ body' outer, plan.Walks query (body' :: outer) ∧
      .reference id path ∈ (plan.body body').occurring ∧ plan.Bound (body' :: outer) path.base) :
    Explored plan query (.expr e.id :: active) s' where
  bodies id hid hactive := by
    have hbefore := ((hhas _).1 hid).resolve_left fun heq => by cases heq
    obtain ⟨hsources, hexprs⟩ := h.bodies id hbefore (List.not_mem_of_not_mem_cons hactive)
    exact ⟨fun source hmem => (hhas _).2 (.inr (hsources source hmem)),
      fun e he => (hhas _).2 (.inr (hexprs e he))⟩
  sources body source hmem hsource sub horigin := by
    have hbefore := ((hhas _).1 hsource).resolve_left fun heq => by cases heq
    exact (hhas _).2 (.inr (h.sources body source hmem hbefore sub horigin))
  exprs body e' he' hexpr hactive := by
    obtain ⟨hne, hactive⟩ := not_or.1 (mt List.mem_cons.2 hactive)
    obtain ⟨hargs, hsubs⟩ := h.exprs body e' he' (((hhas _).1 hexpr).resolve_left hne) hactive
    exact ⟨fun arg harg => (hhas _).2 (.inr (hargs arg harg)),
      fun id' sub heq => (hhas _).2 (.inr (hsubs id' sub heq))⟩
  references body id path hoccurs hid := by
    rcases (hhas _).1 hid with heq | hbefore
    · have hsame : .reference id path = e :=
        apart _ (Plan.body_mem_of_occurring hoccurs) _ (Plan.body_mem_of_occurring he) _ hoccurs _ he
          (Identity.expr.inj heq)
      exact hbound id path hsame.symm
    · exact h.references body id path hoccurs hbefore

/-- All below an expression has been walked. -/
theorem endExpr {owner : BodyId} {e : Expr} (h : Explored plan query (.expr e.id :: active) s)
    (apart : plan.ExprsApart) (he : e ∈ (plan.body owner).occurring)
    (hargs : ∀ arg ∈ e.children, s.Has (.expr arg.id))
    (hsub : ∀ id sub, e = .subquery id sub → s.Has (.body sub)) :
    Explored plan query active s where
  bodies id hid hactive :=
    h.bodies id hid (List.not_mem_cons_of_ne_of_not_mem (fun heq => by cases heq) hactive)
  sources := h.sources
  exprs body e' he' hexpr hactive := by
    by_cases heq : e'.id = e.id
    · have hsame : e' = e :=
        apart _ (Plan.body_mem_of_occurring he') _ (Plan.body_mem_of_occurring he) _ he' _ he heq
      exact hsame ▸ ⟨hargs, hsub⟩
    · exact h.exprs body e' he' hexpr
        (List.not_mem_cons_of_ne_of_not_mem (fun hexpr => heq (Identity.expr.inj hexpr)) hactive)
  references := h.references

end Explored

end Sketch

/-! ## Walks -/

/-- What is visited lies on a way that is walked. -/
def Visited.Lies (plan : Plan) (query : BodyId) (scopes : List BodyId) : Visited → Prop
  | .body id _ => plan.Walks query (id :: scopes)
  | .source owner t => t ∈ (plan.body owner).sources ∧
      ∀ sub, t.origin = .query sub → plan.Walks query (sub :: scopes)
  | .sources owner ts => ∀ t ∈ ts, t ∈ (plan.body owner).sources ∧
      ∀ sub, t.origin = .query sub → plan.Walks query (sub :: scopes)
  | .expr owner e => e ∈ (plan.body owner).occurring ∧
      ∃ outer, scopes = owner :: outer ∧ plan.Walks query scopes
  | .exprs owner es => ∀ e ∈ es, e ∈ (plan.body owner).occurring ∧
      ∃ outer, scopes = owner :: outer ∧ plan.Walks query scopes

/-- What is visited has been met. -/
def Visited.Met (s : Sketch) : Visited → Prop
  | .body id _ => s.Has (.body id)
  | .source _ t => s.Has (.source t.id)
  | .sources _ ts => ∀ t ∈ ts, s.Has (.source t.id)
  | .expr _ e => s.Has (.expr e.id)
  | .exprs _ es => ∀ e ∈ es, s.Has (.expr e.id)

namespace Visits

variable {plan : Plan} {query : BodyId} {walk : Walk} {visited : Visited}
  {dependent : Option NodeId} {s s' : Sketch}

/-- What has been met stays so. -/
theorem has (h : Visits plan walk visited dependent s s') {id : Identity} (hid : s.Has id) :
    s'.Has id := by
  induction h with
  | knownBody => exact (Sketch.has_link _ _ _ _).2 hid
  | newBody _ _ _ _ ihSources ihExprs =>
      exact ihExprs (ihSources ((Sketch.has_create _ _ _ _ _).2 (.inr hid)))
  | knownSource => exact (Sketch.has_link _ _ _ _).2 hid
  | collection => exact (Sketch.has_create _ _ _ _ _).2 (.inr hid)
  | query _ _ _ ih => exact (Sketch.has_register _ _ _ _).2 (.inr (ih hid))
  | noSources => exact hid
  | moreSources _ _ ihFirst ihOthers => exact ihOthers (ihFirst hid)
  | knownExpr => exact (Sketch.has_link _ _ _ _).2 hid
  | literal => exact (Sketch.has_create _ _ _ _ _).2 (.inr hid)
  | reference _ _ _ ih => exact ih ((Sketch.has_create _ _ _ _ _).2 (.inr hid))
  | call _ _ ih => exact ih ((Sketch.has_create _ _ _ _ _).2 (.inr hid))
  | aggregate _ _ ih => exact ih ((Sketch.has_create _ _ _ _ _).2 (.inr hid))
  | subquery _ _ ih => exact ih ((Sketch.has_create _ _ _ _ _).2 (.inr hid))
  | noExprs => exact hid
  | moreExprs _ _ ihFirst ihOthers => exact ihOthers (ihFirst hid)

/-- A visit meets what is visited. -/
theorem met (h : Visits plan walk visited dependent s s') : visited.Met s' := by
  induction h with
  | @knownBody walk id node dependent s known => exact (Sketch.has_link _ _ _ _).2 ⟨node, known⟩
  | newBody _ sources exprs _ _ _ =>
      exact exprs.has (sources.has ((Sketch.has_create _ _ _ _ _).2 (.inl rfl)))
  | @knownSource walk owner source node dependent s known =>
      exact (Sketch.has_link _ _ _ _).2 ⟨node, known⟩
  | collection => exact (Sketch.has_create _ _ _ _ _).2 (.inl rfl)
  | query => exact (Sketch.has_register _ _ _ _).2 (.inl rfl)
  | noSources => exact fun _ h => by cases h
  | moreSources _ others ihFirst ihOthers =>
      exact List.forall_mem_cons.2 ⟨others.has ihFirst, ihOthers⟩
  | @knownExpr walk owner e node dependent s known =>
      exact (Sketch.has_link _ _ _ _).2 ⟨node, known⟩
  | literal => exact (Sketch.has_create _ _ _ _ _).2 (.inl rfl)
  | reference _ _ origin _ => exact origin.has ((Sketch.has_create _ _ _ _ _).2 (.inl rfl))
  | call _ arguments _ => exact arguments.has ((Sketch.has_create _ _ _ _ _).2 (.inl rfl))
  | aggregate _ arguments _ => exact arguments.has ((Sketch.has_create _ _ _ _ _).2 (.inl rfl))
  | subquery _ selection _ => exact selection.has ((Sketch.has_create _ _ _ _ _).2 (.inl rfl))
  | noExprs => exact fun _ h => by cases h
  | moreExprs _ others ihFirst ihOthers =>
      exact List.forall_mem_cons.2 ⟨others.has ihFirst, ihOthers⟩

/-- A visit meets all that belongs to what is visited. -/
theorem explores (h : Visits plan walk visited dependent s s') (sourcesApart : plan.SourcesApart)
    (exprsApart : plan.ExprsApart) (hlies : visited.Lies plan query walk.scopes)
    (hs : s.Explored plan query walk.active) : s'.Explored plan query walk.active := by
  induction h with
  | knownBody => exact hs.of_same (Sketch.has_link _ _ _)
  | @newBody walk id dependent s s₁ s₂ new sources exprs joins ihSources ihExprs =>
      have hbegun : (s.create (.body id) (.selection id) dependent).Explored plan query
          (walk.enter id).active := hs.beginBody (Sketch.has_create _ _ _ _)
      have hs₁ := ihSources
        (fun source hmem => ⟨hmem, fun sub horigin => .source hlies hmem horigin⟩) hbegun
      have hs₂ := ihExprs
        (fun e he => ⟨(plan.body id).expressions_subset_occurring he, walk.scopes, rfl, hlies⟩) hs₁
      exact hs₂.endBody (fun source hmem => exprs.has (sources.met source hmem)) exprs.met
  | knownSource => exact hs.of_same (Sketch.has_link _ _ _)
  | @collection walk owner source ref dependent s new origin =>
      refine hs.addSource sourcesApart hlies.1 (Sketch.has_create _ _ _ _) fun sub horigin => ?_
      rw [origin] at horigin
      cases horigin
  | @query walk owner source sub node dependent s s₁ new origin body ih =>
      refine (ih (hlies.2 sub origin) hs).addSource sourcesApart hlies.1 (Sketch.has_register _ _ _)
        fun sub' horigin => ?_
      rw [origin] at horigin
      cases horigin
      exact body.met
  | noSources => exact hs
  | @moreSources walk owner source rest dependent s s₁ s₂ first others ihFirst ihOthers =>
      exact ihOthers (fun t ht => hlies t (List.mem_cons_of_mem _ ht))
        (ihFirst (hlies source List.mem_cons_self) hs)
  | knownExpr => exact hs.of_same (Sketch.has_link _ _ _)
  | @literal walk owner id value dependent s new =>
      have hbegun := hs.beginExpr exprsApart hlies.1
        (Sketch.has_create s (.expr id) (.expression (.literal id value)) dependent)
        fun _ _ heq => by cases heq
      exact hbegun.endExpr exprsApart hlies.1 (fun _ h => by cases h) fun _ _ heq => by cases heq
  | @reference walk owner binder id path source dependent s s₁ new resolved origin ih =>
      obtain ⟨hoccurs, outer, hscopes, hwalks⟩ := hlies
      obtain ⟨hmem, hbound⟩ := Plan.mem_of_resolve? resolved
      rw [hscopes] at hwalks hbound resolved
      have hbegun := hs.beginExpr exprsApart hoccurs
        (Sketch.has_create s (.expr id) (.expression (.reference id path)) dependent)
        fun _ _ heq => by
          cases heq
          exact ⟨owner, outer, hwalks, hoccurs, hbound⟩
      have hended := hbegun.endExpr exprsApart hoccurs (fun _ h => by cases h)
        fun _ _ heq => by cases heq
      exact ih ⟨hmem, fun sub horigin => by
        rw [hscopes]
        exact .reference hwalks hoccurs resolved horigin⟩ hended
  | @call walk owner id function args dependent s s₁ new arguments ih =>
      have hbegun := hs.beginExpr exprsApart hlies.1
        (Sketch.has_create s (.expr id) (.expression (.call id function args)) dependent)
        fun _ _ heq => by cases heq
      have hs₁ := ih (fun arg harg => ⟨Body.occurring_of_child hlies.1 harg, hlies.2⟩) hbegun
      exact hs₁.endExpr exprsApart hlies.1 arguments.met fun _ _ heq => by cases heq
  | @aggregate walk owner id function args dependent s s₁ new arguments ih =>
      have hbegun := hs.beginExpr exprsApart hlies.1
        (Sketch.has_create s (.expr id) (.aggregate (.aggregate id function args) owner) dependent)
        fun _ _ heq => by cases heq
      have hs₁ := ih (fun arg harg => ⟨Body.occurring_of_child hlies.1 harg, hlies.2⟩) hbegun
      exact hs₁.endExpr exprsApart hlies.1 arguments.met fun _ _ heq => by cases heq
  | @subquery walk owner id body node dependent s s₁ new selection ih =>
      obtain ⟨hoccurs, outer, hscopes, hwalks⟩ := hlies
      have hbegun := hs.beginExpr exprsApart hoccurs
        (Sketch.has_create s (.expr id) (.expression (.subquery id body)) dependent)
        fun _ _ heq => by cases heq
      have hinner : plan.Walks query (body :: walk.scopes) := by
        rw [hscopes] at hwalks ⊢
        exact .subquery hwalks hoccurs
      refine (ih hinner hbegun).endExpr exprsApart hoccurs (fun _ h => by cases h)
        fun _ _ heq => ?_
      cases heq
      exact selection.met
  | noExprs => exact hs
  | @moreExprs walk owner e rest dependent s s₁ s₂ first others ihFirst ihOthers =>
      exact ihOthers (fun t ht => hlies t (List.mem_cons_of_mem _ ht))
        (ihFirst (hlies e List.mem_cons_self) hs)

end Visits

/-! ## Accepted queries -/

namespace Sketch.Explored

variable {plan : Plan} {query : BodyId} {s : Sketch}

mutual

theorem has_of_subterm (h : s.Explored plan query []) {body : BodyId} (top : Expr)
    (htop : top ∈ (plan.body body).occurring) (hhas : s.Has (.expr top.id)) {e : Expr}
    (he : e ∈ top.subterms) : s.Has (.expr e.id) := by
  match top with
  | .literal id value => rwa [List.mem_singleton.1 he]
  | .reference id path => rwa [List.mem_singleton.1 he]
  | .subquery id sub => rwa [List.mem_singleton.1 he]
  | .call id function args =>
      rcases List.mem_cons.1 he with rfl | he
      · exact hhas
      · exact h.has_of_subtermsOf args (fun arg harg => Body.occurring_of_child htop harg)
          (h.exprs body _ htop hhas List.not_mem_nil).1 he
  | .aggregate id function args =>
      rcases List.mem_cons.1 he with rfl | he
      · exact hhas
      · exact h.has_of_subtermsOf args (fun arg harg => Body.occurring_of_child htop harg)
          (h.exprs body _ htop hhas List.not_mem_nil).1 he

theorem has_of_subtermsOf (h : s.Explored plan query []) {body : BodyId} (tops : List Expr)
    (htops : ∀ top ∈ tops, top ∈ (plan.body body).occurring)
    (hhas : ∀ top ∈ tops, s.Has (.expr top.id)) {e : Expr} (he : e ∈ Expr.subtermsOf tops) :
    s.Has (.expr e.id) := by
  match tops with
  | first :: rest =>
      obtain ⟨hfirst, hrest⟩ := List.forall_mem_cons.1 htops
      obtain ⟨hhasFirst, hhasRest⟩ := List.forall_mem_cons.1 hhas
      rcases List.mem_append.1 he with he | he
      · exact h.has_of_subterm first hfirst hhasFirst he
      · exact h.has_of_subtermsOf rest hrest hhasRest he

end

/-- All expressions of a body that was met have been met. -/
theorem has_of_occurring (h : s.Explored plan query []) {body : BodyId}
    (hbody : s.Has (.body body)) {e : Expr} (he : e ∈ (plan.body body).occurring) :
    s.Has (.expr e.id) := by
  obtain ⟨top, htop, he⟩ := List.mem_flatMap.1 he
  exact h.has_of_subterm top ((plan.body body).expressions_subset_occurring htop)
    ((h.bodies body hbody List.not_mem_nil).2 top htop) he

/-- The bodies along every way into the query have been met. -/
theorem has_of_nests (h : s.Explored plan query []) (hquery : s.Has (.body query)) {body : BodyId}
    {outer : List BodyId} (hnests : plan.Nests query (body :: outer)) : s.Has (.body body) := by
  generalize hbodies : body :: outer = bodies at hnests
  induction hnests generalizing body outer with
  | root =>
      cases hbodies
      exact hquery
  | source around mem origin ih =>
      cases hbodies
      have hbody := ih rfl
      exact h.sources _ _ mem ((h.bodies _ hbody List.not_mem_nil).1 _ mem) _ origin
  | subquery around occurs ih =>
      cases hbodies
      have hexpr := h.has_of_occurring (ih rfl) occurs
      exact (h.exprs _ _ occurs hexpr List.not_mem_nil).2 _ _ rfl

end Sketch.Explored

namespace Plan

variable {plan : Plan} {query : BodyId} {g : Graph}

/-- Every reference of an accepted query has its alias bound along a way that was walked. -/
theorem bound_somewhere (accepted : plan.graph query = .ok g) (sourcesApart : plan.SourcesApart)
    (exprsApart : plan.ExprsApart) {body : BodyId} {outer : List BodyId}
    (hnests : plan.Nests query (body :: outer)) {id : ExprId} {path : Path}
    (hoccurs : .reference id path ∈ (plan.body body).occurring) :
    ∃ body' outer', plan.Walks query (body' :: outer') ∧
      .reference id path ∈ (plan.body body').occurring ∧ plan.Bound (body' :: outer') path.base := by
  obtain ⟨s, hvisits, _⟩ := visits_of_graph accepted
  have hexplored := hvisits.explores sourcesApart exprsApart Walks.root (.empty plan query)
  exact hexplored.references body id path hoccurs
    (hexplored.has_of_occurring (hexplored.has_of_nests hvisits.met hnests) hoccurs)

/-- The aliases of an accepted query are all bound just if all ways to a reference agree on
whether its alias is; then the outermost body reads nothing from outside. -/
theorem resolves_iff (accepted : plan.graph query = .ok g) (sourcesApart : plan.SourcesApart)
    (exprsApart : plan.ExprsApart) :
    (plan.Resolves query ↔ plan.Agrees query) ∧
      (plan.Agrees query → plan.isCorrelated query = false) := by
  have hiff : plan.Resolves query ↔ plan.Agrees query := by
    constructor
    · intro hresolves _ path _ _ _ _ _ body outer hnests hoccurs
      exact hresolves body outer hnests _ path hoccurs
    · intro hagrees body outer hnests id path hoccurs
      obtain ⟨body', outer', hwalks, hoccurs', hbound⟩ :=
        bound_somewhere accepted sourcesApart exprsApart hnests hoccurs
      exact hagrees id path body' outer' hwalks hoccurs' hbound body outer hnests hoccurs
  exact ⟨hiff, fun hagrees => (hiff.2 hagrees).not_correlated⟩

/-- Two queries: the field of a row, and over that query one whose filter reads the same
reference to the row again. -/
def reusing : Plan :=
  let inner := (do
    let row ← Builder.bind "row" (.collection ⟨0, "rows"⟩) none
    let field : Proxy := ⟨row.body, row.path.get "x"⟩
    Builder.select [.field "x" (.ref field)]
    return field : Builder Proxy).run (openQuery {})
  let outer := (do
    let result ← Builder.bind "result" (.query 0) none
    Builder.filter (.ref inner.1)
    Builder.select [.field "x" (.ref ⟨result.body, result.path.get "x"⟩)] : Builder Unit).run
      (openQuery inner.2.plan)
  outer.2.plan

theorem resolves_iff_inner :
    (∃ g, reusing.graph 0 = .ok g) ∧ reusing.SourcesApart ∧ reusing.ExprsApart ∧
      (reusing.Resolves 0 ↔ reusing.Agrees 0) ∧
        (reusing.Agrees 0 → reusing.isCorrelated 0 = false) := by
  have hsources : reusing.SourcesApart := by
    unfold SourcesApart
    decide +kernel
  have hexprs : reusing.ExprsApart := by
    have hsome : ∀ body ∈ reusing.bodies, ∀ e ∈ body.occurring,
        e = .reference 0 ⟨"row", ["x"]⟩ ∨ e = .reference 1 ⟨"result", ["x"]⟩ := by
      intro body hbody e he
      have hbodies : reusing.bodies = [reusing.body 0, reusing.body 1] := rfl
      rw [hbodies, List.mem_pair] at hbody
      rcases hbody with rfl | rfl
      · exact .inl (List.mem_singleton.1 he)
      · exact (List.mem_pair.1 he).symm
    intro body hbody body' hbody' e he e' he' heq
    rcases hsome body hbody e he with rfl | rfl <;>
      rcases hsome body' hbody' e' he' with rfl | rfl <;> first | rfl | cases heq
  obtain ⟨g, hgraph⟩ : ∃ g, reusing.graph 0 = .ok g := ⟨_, rfl⟩
  exact ⟨⟨g, hgraph⟩, hsources, hexprs, resolves_iff hgraph hsources hexprs⟩

/-- The outer query is accepted, though its filter reads an alias that it does not bind. -/
theorem resolves_iff_fails :
    (∃ g, reusing.graph 1 = .ok g) ∧ ¬reusing.Resolves 1 ∧ reusing.isCorrelated 1 = true := by
  refine ⟨⟨_, rfl⟩, fun hresolves => ?_, by decide +kernel⟩
  have hoccurs : .reference 0 ⟨"row", ["x"]⟩ ∈ (reusing.body 1).occurring :=
    List.mem_cons_of_mem _ List.mem_cons_self
  obtain ⟨body, hbody, hbinds⟩ := hresolves 1 [] .root 0 _ hoccurs
  rw [List.mem_singleton.1 hbody] at hbinds
  revert hbinds
  decide +kernel

end Plan

end LiveQuery
