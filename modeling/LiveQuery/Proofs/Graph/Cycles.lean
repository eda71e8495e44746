import LiveQuery.Proofs.Graph.Aliases
import LiveQuery.Proofs.Plan.Chains

/-!
# Cyclic definitions

A body, a call, an aggregate or a subquery is active while what it is made of is walked, and met
again it is an error. So once an object has been walked to its end, the bodies below it are
grounded. A reference is not active while its source is walked, nor is a source of a query; but
no body is held by a reference, and the body that a source reads is active itself.

**Results.** `Visits.grounds`: what has been walked to its end is grounded.
`Plan.grounded_of_graph`: no body of an accepted query is below itself.
-/

namespace LiveQuery

/-- No chain of bodies below an object goes on for ever. -/
def Identity.Grounded (plan : Plan) : Identity → Prop
  | .body id => plan.Grounded id
  | .source id => ∀ body, ∀ source ∈ (plan.body body).sources, source.id = id →
      ∀ sub, source.origin = .query sub → plan.Grounded sub
  | .expr id => ∀ body, ∀ e ∈ (plan.body body).occurring, e.id = id →
      ∀ id' sub, .subquery id' sub ∈ e.subterms → plan.Grounded sub

/-- What has been met and is not active is grounded. -/
def Sketch.Grounded (plan : Plan) (active : List Identity) (s : Sketch) : Prop :=
  ∀ id, s.Has id → id ∉ active → id.Grounded plan

/-- What is visited belongs to the body in which it is. -/
def Visited.Belongs (plan : Plan) : Visited → Prop
  | .body _ _ => True
  | .source owner t => t ∈ (plan.body owner).sources
  | .sources owner ts => ∀ t ∈ ts, t ∈ (plan.body owner).sources
  | .expr owner e => e ∈ (plan.body owner).occurring
  | .exprs owner es => ∀ e ∈ es, e ∈ (plan.body owner).occurring

/-- The objects that are visited. -/
def Visited.identities : Visited → List Identity
  | .body id _ => [.body id]
  | .source _ t => [.source t.id]
  | .sources _ ts => ts.map fun t => .source t.id
  | .expr _ e => [.expr e.id]
  | .exprs _ es => es.map fun e => .expr e.id

section

variable {plan : Plan} {body owner : BodyId}

/-- A body is grounded when its sources and expressions are. -/
theorem Plan.grounded_of_parts
    (hsources : ∀ t ∈ (plan.body body).sources, (Identity.source t.id).Grounded plan)
    (hexprs : ∀ e ∈ (plan.body body).expressions, (Identity.expr e.id).Grounded plan) :
    plan.Grounded body := by
  refine Acc.intro body fun sub hholds => ?_
  cases hholds with
  | @source source mem origin => exact hsources source mem body source mem rfl sub origin
  | @subquery id mem =>
      obtain ⟨top, htop, hsub⟩ := List.mem_flatMap.1 mem
      exact hexprs top htop body top ((plan.body body).expressions_subset_occurring htop) rfl id sub hsub

/-- An expression is grounded when no subquery occurs in it whose body is not. -/
theorem Identity.grounded_expr (apart : plan.ExprsApart) {e : Expr}
    (he : e ∈ (plan.body owner).occurring)
    (hsub : ∀ id sub, .subquery id sub ∈ e.subterms → plan.Grounded sub) :
    (Identity.expr e.id).Grounded plan := by
  intro body e' he' hid
  obtain rfl := apart _ (Plan.body_mem_of_occurring he') _ (Plan.body_mem_of_occurring he) e' he' e he hid
  exact hsub

theorem Identity.grounded_source (apart : plan.SourcesApart) {source : Source}
    (hsource : source ∈ (plan.body owner).sources)
    (hsub : ∀ sub, source.origin = .query sub → plan.Grounded sub) :
    (Identity.source source.id).Grounded plan := by
  intro body source' hsource' hid
  obtain rfl := apart _ (Plan.body_mem_bodies hsource') _ (Plan.body_mem_bodies hsource) source' hsource'
    source hsource hid
  exact hsub

/-- The subqueries in an expression with arguments are those in the arguments. -/
theorem Identity.grounded_of_children {e : Expr} (he : e ∈ (plan.body owner).occurring)
    (hargs : ∀ arg ∈ e.children, (Identity.expr arg.id).Grounded plan) (hself : e.isSubquery = false) :
    ∀ id sub, .subquery id sub ∈ e.subterms → plan.Grounded sub := by
  intro id sub hmem
  rw [Expr.subterms_eq] at hmem
  rcases List.mem_cons.1 hmem with rfl | hmem
  · cases hself
  · obtain ⟨arg, harg, hmem⟩ := Expr.mem_subtermsOf.1 hmem
    exact hargs arg harg owner arg (Body.occurring_of_child he harg) rfl id sub hmem

end

namespace Sketch.Grounded

variable {plan : Plan} {active : List Identity} {s s' : Sketch} {id : Identity}

theorem of_same (h : s.Grounded plan active) (hhas : ∀ id, s'.Has id ↔ s.Has id) :
    s'.Grounded plan active :=
  fun id hid => h id ((hhas id).1 hid)

/-- An object is met that is active from then on. -/
theorem begin (h : s.Grounded plan active) (hhas : ∀ k, s'.Has k ↔ k = id ∨ s.Has k) :
    s'.Grounded plan (id :: active) := by
  intro k hk hactive
  obtain ⟨hne, hactive⟩ := not_or.1 (mt List.mem_cons.2 hactive)
  exact h k (((hhas k).1 hk).resolve_left hne) hactive

/-- An active object has been walked to its end. -/
theorem finish (h : s.Grounded plan (id :: active)) (hid : id.Grounded plan) :
    s.Grounded plan active := by
  intro k hk hactive
  by_cases heq : k = id
  · exact heq ▸ hid
  · exact h k hk (List.not_mem_cons_of_ne_of_not_mem heq hactive)

/-- An object is met that is grounded. -/
theorem add (h : s.Grounded plan active) (hid : id.Grounded plan)
    (hhas : ∀ k, s'.Has k ↔ k = id ∨ s.Has k) : s'.Grounded plan active :=
  (h.begin hhas).finish hid

end Sketch.Grounded

namespace Visits

variable {plan : Plan} {walk : Walk} {visited : Visited} {dependent : Option NodeId}
  {s s' : Sketch}

/-- A visit leaves what is visited grounded. -/
theorem grounds (h : Visits plan walk visited dependent s s') (sourcesApart : plan.SourcesApart)
    (exprsApart : plan.ExprsApart) (hbelongs : visited.Belongs plan)
    (hs : s.Grounded plan walk.active) :
    s'.Grounded plan walk.active ∧ ∀ id ∈ visited.identities, id.Grounded plan := by
  induction h with
  | @knownBody walk id node dependent s known inactive =>
      exact ⟨hs.of_same (Sketch.has_link _ _ _),
        List.forall_mem_singleton.2 (hs _ ⟨node, known⟩ inactive)⟩
  | @newBody walk id dependent s s₁ s₂ new sources exprs joins ihSources ihExprs =>
      have hbegun : (s.create (.body id) (.selection id) dependent).Grounded plan
          (walk.enter id).active := hs.begin (Sketch.has_create _ _ _ _)
      obtain ⟨hs₁, hsources⟩ := ihSources (fun _ ht => ht) hbegun
      obtain ⟨hs₂, hexprs⟩ := ihExprs
        (fun e he => (plan.body id).expressions_subset_occurring he) hs₁
      have hbody : (Identity.body id).Grounded plan :=
        Plan.grounded_of_parts (List.forall_mem_map.1 hsources) (List.forall_mem_map.1 hexprs)
      exact ⟨Sketch.Grounded.finish hs₂ hbody, List.forall_mem_singleton.2 hbody⟩
  | @knownSource walk owner source node dependent s known inactive =>
      exact ⟨hs.of_same (Sketch.has_link _ _ _),
        List.forall_mem_singleton.2 (hs _ ⟨node, known⟩ inactive)⟩
  | @collection walk owner source ref dependent s new origin =>
      have hsource := Identity.grounded_source sourcesApart hbelongs fun sub horigin => by
        rw [origin] at horigin
        cases horigin
      exact ⟨hs.add hsource (Sketch.has_create _ _ _ _), List.forall_mem_singleton.2 hsource⟩
  | @query walk owner source sub node dependent s s₁ new origin body ih =>
      obtain ⟨hs₁, hsub⟩ := ih trivial hs
      have hsource := Identity.grounded_source sourcesApart hbelongs fun sub' horigin => by
        rw [origin] at horigin
        cases horigin
        exact hsub _ List.mem_cons_self
      exact ⟨hs₁.add hsource (Sketch.has_register _ _ _), List.forall_mem_singleton.2 hsource⟩
  | noSources => exact ⟨hs, fun _ h => by cases h⟩
  | @moreSources walk owner source rest dependent s s₁ s₂ first others ihFirst ihOthers =>
      obtain ⟨hs₁, hfirst⟩ := ihFirst (hbelongs source List.mem_cons_self) hs
      obtain ⟨hs₂, hothers⟩ := ihOthers (fun t ht => hbelongs t (List.mem_cons_of_mem _ ht)) hs₁
      exact ⟨hs₂, List.forall_mem_cons.2 ⟨hfirst _ List.mem_cons_self, hothers⟩⟩
  | @knownExpr walk owner e node dependent s known inactive =>
      exact ⟨hs.of_same (Sketch.has_link _ _ _),
        List.forall_mem_singleton.2 (hs _ ⟨node, known⟩ inactive)⟩
  | @literal walk owner id value dependent s new =>
      have hexpr := Identity.grounded_expr exprsApart hbelongs
        (Identity.grounded_of_children hbelongs (fun _ h => by cases h) rfl)
      exact ⟨hs.add hexpr (Sketch.has_create _ _ _ _), List.forall_mem_singleton.2 hexpr⟩
  | @reference walk owner binder id path source dependent s s₁ new resolved origin ih =>
      have hexpr := Identity.grounded_expr exprsApart hbelongs
        (Identity.grounded_of_children hbelongs (fun _ h => by cases h) rfl)
      obtain ⟨hs₁, _⟩ := ih (Plan.mem_of_resolve? resolved).1
        (hs.add hexpr (Sketch.has_create _ _ _ _))
      exact ⟨hs₁, List.forall_mem_singleton.2 hexpr⟩
  | @call walk owner id function args dependent s s₁ new arguments ih =>
      obtain ⟨hs₁, hargs⟩ := ih (fun arg harg => Body.occurring_of_child hbelongs harg)
        (hs.begin (Sketch.has_create _ _ _ _))
      have hexpr := Identity.grounded_expr exprsApart hbelongs
        (Identity.grounded_of_children hbelongs (List.forall_mem_map.1 hargs) rfl)
      exact ⟨Sketch.Grounded.finish hs₁ hexpr, List.forall_mem_singleton.2 hexpr⟩
  | @aggregate walk owner id function args dependent s s₁ new arguments ih =>
      obtain ⟨hs₁, hargs⟩ := ih (fun arg harg => Body.occurring_of_child hbelongs harg)
        (hs.begin (Sketch.has_create _ _ _ _))
      have hexpr := Identity.grounded_expr exprsApart hbelongs
        (Identity.grounded_of_children hbelongs (List.forall_mem_map.1 hargs) rfl)
      exact ⟨Sketch.Grounded.finish hs₁ hexpr, List.forall_mem_singleton.2 hexpr⟩
  | @subquery walk owner id body node dependent s s₁ new selection ih =>
      obtain ⟨hs₁, hsub⟩ := ih trivial (hs.begin (Sketch.has_create _ _ _ _))
      have hexpr := Identity.grounded_expr exprsApart hbelongs fun id' sub hmem => by
        cases List.mem_singleton.1 hmem
        exact hsub _ List.mem_cons_self
      exact ⟨Sketch.Grounded.finish hs₁ hexpr, List.forall_mem_singleton.2 hexpr⟩
  | noExprs => exact ⟨hs, fun _ h => by cases h⟩
  | @moreExprs walk owner e rest dependent s s₁ s₂ first others ihFirst ihOthers =>
      obtain ⟨hs₁, hfirst⟩ := ihFirst (hbelongs e List.mem_cons_self) hs
      obtain ⟨hs₂, hothers⟩ := ihOthers (fun t ht => hbelongs t (List.mem_cons_of_mem _ ht)) hs₁
      exact ⟨hs₂, List.forall_mem_cons.2 ⟨hfirst _ List.mem_cons_self, hothers⟩⟩

end Visits

theorem Sketch.Grounded.empty (plan : Plan) (active : List Identity) :
    ({} : Sketch).Grounded plan active :=
  fun _ hid => by
    obtain ⟨_, h⟩ := hid
    cases h

/-- The body of an accepted query is grounded, and so is every body below it. -/
theorem Plan.grounded_of_graph {plan : Plan} {query : BodyId} {g : Graph}
    (accepted : plan.graph query = .ok g) (sourcesApart : plan.SourcesApart)
    (exprsApart : plan.ExprsApart) : plan.Grounded query := by
  obtain ⟨s, hvisits, _⟩ := visits_of_graph accepted
  exact (hvisits.grounds sourcesApart exprsApart trivial (.empty plan [])).2 _ List.mem_cons_self

/-- Chains of bodies below an accepted query are no longer than the plan. -/
theorem Plan.Written.within_of_graph {plan : Plan} (hwritten : plan.Written) {query body : BodyId}
    {g : Graph} (accepted : plan.graph query = .ok g) (hquery : query < plan.bodies.length)
    (hreach : Relation.ReflTransGen plan.Holds query body) : plan.Within plan.depth body := by
  have hground := grounded_of_graph accepted hwritten.sourcesApart hwritten.exprsApart
  refine (hground.reach hreach).within hwritten ?_
  cases hreach with
  | refl => exact hquery
  | tail _ hholds => exact hwritten.lt_of_holds hholds

end LiveQuery
