import LiveQuery.Graph.Walk
import LiveQuery.Proofs.Operation

/-!
# Walks as derivations

What a successful walk does to a sketch, case by case: an object that was met before is
linked, a new one is created and what it is made of is visited in turn. Whatever holds of
the graphs of queries is shown by induction on these cases.

**Results.** `visits_of_walkBody`: the walk of a body that ends without an error is such a
derivation.
-/

namespace LiveQuery

/-- What is visited: a body, with the node it has afterwards, a source of a body, or an
expression of a body, and lists of them. -/
inductive Visited where
  | body (id : BodyId) (node : NodeId)
  | source (owner : BodyId) (source : Source)
  | sources (owner : BodyId) (sources : List Source)
  | expr (owner : BodyId) (e : Expr)
  | exprs (owner : BodyId) (es : List Expr)

/-- The visits that take one sketch to another. -/
inductive Visits (plan : Plan) : Walk → Visited → Option NodeId → Sketch → Sketch → Prop
  | knownBody {walk : Walk} {id : BodyId} {node : NodeId} {dependent : Option NodeId}
      {s : Sketch} (known : s.index.lookup (.body id) = some node)
      (inactive : Identity.body id ∉ walk.active) :
      Visits plan walk (.body id node) dependent s (s.link node dependent)
  | newBody {walk : Walk} {id : BodyId} {dependent : Option NodeId} {s s₁ s₂ : Sketch}
      (new : s.index.lookup (.body id) = none)
      (sources : Visits plan (walk.enter id) (.sources id (plan.body id).sources)
        (some s.nodes.length) (s.create (.body id) (.selection id) dependent) s₁)
      (exprs : Visits plan (walk.enter id) (.exprs id (plan.body id).expressions)
        (some s.nodes.length) s₁ s₂)
      (joins : plan.checkJoins (plan.body id) (plan.body id).joinConditions = .ok ()) :
      Visits plan walk (.body id s.nodes.length) dependent s s₂
  | knownSource {walk : Walk} {owner : BodyId} {source : Source} {node dependent : NodeId}
      {s : Sketch} (known : s.index.lookup (.source source.id) = some node)
      (inactive : Identity.source source.id ∉ walk.active) :
      Visits plan walk (.source owner source) dependent s (s.link node dependent)
  | collection {walk : Walk} {owner : BodyId} {source : Source} {ref : CollectionRef}
      {dependent : NodeId} {s : Sketch} (new : s.index.lookup (.source source.id) = none)
      (origin : source.origin = .collection ref) :
      Visits plan walk (.source owner source) dependent s
        (s.create (.source source.id)
          (.collection source ref ((plan.body owner).conditionsReading source.name)) dependent)
  | query {walk : Walk} {owner : BodyId} {source : Source} {sub : BodyId}
      {node dependent : NodeId} {s s₁ : Sketch}
      (new : s.index.lookup (.source source.id) = none) (origin : source.origin = .query sub)
      (body : Visits plan walk (.body sub node) dependent s s₁) :
      Visits plan walk (.source owner source) dependent s
        (s₁.register (.source source.id) node)
  | noSources {walk : Walk} {owner : BodyId} {dependent : NodeId} {s : Sketch} :
      Visits plan walk (.sources owner []) dependent s s
  | moreSources {walk : Walk} {owner : BodyId} {source : Source} {rest : List Source}
      {dependent : NodeId} {s s₁ s₂ : Sketch}
      (first : Visits plan walk (.source owner source) dependent s s₁)
      (others : Visits plan walk (.sources owner rest) dependent s₁ s₂) :
      Visits plan walk (.sources owner (source :: rest)) dependent s s₂
  | knownExpr {walk : Walk} {owner : BodyId} {e : Expr} {node dependent : NodeId} {s : Sketch}
      (known : s.index.lookup (.expr e.id) = some node)
      (inactive : Identity.expr e.id ∉ walk.active) :
      Visits plan walk (.expr owner e) dependent s (s.link node dependent)
  | literal {walk : Walk} {owner : BodyId} {id : ExprId} {value : Scalar} {dependent : NodeId}
      {s : Sketch} (new : s.index.lookup (.expr id) = none) :
      Visits plan walk (.expr owner (.literal id value)) dependent s
        (s.create (.expr id) (.expression (.literal id value)) dependent)
  | reference {walk : Walk} {owner binder : BodyId} {id : ExprId} {path : Path}
      {source : Source} {dependent : NodeId} {s s₁ : Sketch}
      (new : s.index.lookup (.expr id) = none)
      (resolved : plan.resolve? walk.scopes path.base = some (binder, source))
      (origin : Visits plan walk (.source binder source) (some s.nodes.length)
        (s.create (.expr id) (.expression (.reference id path)) dependent) s₁) :
      Visits plan walk (.expr owner (.reference id path)) dependent s s₁
  | call {walk : Walk} {owner : BodyId} {id : ExprId} {function : Function} {args : List Expr}
      {dependent : NodeId} {s s₁ : Sketch} (new : s.index.lookup (.expr id) = none)
      (arguments : Visits plan (walk.inside (.expr id)) (.exprs owner args)
        (some s.nodes.length)
        (s.create (.expr id) (.expression (.call id function args)) dependent) s₁) :
      Visits plan walk (.expr owner (.call id function args)) dependent s s₁
  | aggregate {walk : Walk} {owner : BodyId} {id : ExprId} {function : Aggregate}
      {args : List Expr} {dependent : NodeId} {s s₁ : Sketch}
      (new : s.index.lookup (.expr id) = none)
      (arguments : Visits plan (walk.inside (.expr id)) (.exprs owner args)
        (some s.nodes.length)
        (s.create (.expr id) (.aggregate (.aggregate id function args) owner) dependent) s₁) :
      Visits plan walk (.expr owner (.aggregate id function args)) dependent s s₁
  | subquery {walk : Walk} {owner : BodyId} {id : ExprId} {body : BodyId}
      {node dependent : NodeId} {s s₁ : Sketch} (new : s.index.lookup (.expr id) = none)
      (selection : Visits plan (walk.inside (.expr id)) (.body body node)
        (some s.nodes.length)
        (s.create (.expr id) (.expression (.subquery id body)) dependent) s₁) :
      Visits plan walk (.expr owner (.subquery id body)) dependent s s₁
  | noExprs {walk : Walk} {owner : BodyId} {dependent : NodeId} {s : Sketch} :
      Visits plan walk (.exprs owner []) dependent s s
  | moreExprs {walk : Walk} {owner : BodyId} {e : Expr} {rest : List Expr}
      {dependent : NodeId} {s s₁ s₂ : Sketch}
      (first : Visits plan walk (.expr owner e) dependent s s₁)
      (others : Visits plan walk (.exprs owner rest) dependent s₁ s₂) :
      Visits plan walk (.exprs owner (e :: rest)) dependent s s₂

/-! ## Steps of a walk -/

theorem Sketching.bind_eq_ok {α β : Type} {x : Sketching α} {f : α → Sketching β}
    {s s'' : Sketch} {b : β} :
    (x >>= f) s = .ok (b, s'') ↔ ∃ a s', x s = .ok (a, s') ∧ f a s' = .ok (b, s'') := by
  change (x s >>= fun p => f p.1 p.2) = _ ↔ _
  rw [Except.bind_eq_ok]
  exact ⟨fun ⟨⟨a, s'⟩, h⟩ => ⟨a, s', h⟩, fun ⟨a, s', h⟩ => ⟨⟨a, s'⟩, h⟩⟩

theorem Sketching.pure_eq_ok {α : Type} {a b : α} {s s' : Sketch} :
    (pure a : Sketching α) s = .ok (b, s') ↔ a = b ∧ s = s' :=
  ⟨fun h => Prod.mk.inj (Except.ok.inj h), fun ⟨h, h'⟩ => h ▸ h' ▸ rfl⟩

theorem Sketching.discard_eq_ok {α : Type} {x : Sketching α} {s s' : Sketch} :
    (discard x) s = .ok ((), s') ↔ ∃ a, x s = .ok (a, s') := by
  change (x s >>= fun p => pure ((), p.2)) = _ ↔ _
  rw [Except.bind_eq_ok]
  constructor
  · rintro ⟨⟨a, s₁⟩, h, hdone⟩
    cases hdone
    exact ⟨a, h⟩
  · rintro ⟨a, h⟩
    exact ⟨(a, s'), h, rfl⟩

/-- An object is known when it has a node and is not being walked; it is linked then. -/
theorem known_eq_ok {walk : Walk} {id : Identity} {dependent : Option NodeId} {s s' : Sketch}
    {answer : Option NodeId} (h : known walk id dependent s = .ok (answer, s')) :
    (s.index.lookup id = none ∧ answer = none ∧ s' = s) ∨
      ∃ node, s.index.lookup id = some node ∧ id ∉ walk.active ∧ answer = some node ∧
        s' = s.link node dependent := by
  unfold known at h
  obtain ⟨t, t', hget, h⟩ := Sketching.bind_eq_ok.1 h
  cases hget
  cases hlookup : s.index.lookup id with
  | none =>
      rw [hlookup] at h
      obtain ⟨rfl, rfl⟩ := Sketching.pure_eq_ok.1 h
      exact .inl ⟨rfl, rfl, rfl⟩
  | some node =>
      rw [hlookup] at h
      by_cases hactive : walk.active.contains id = true
      · simp only [hactive, if_true] at h
        cases h
      · simp only [hactive, Bool.false_eq_true, if_false] at h
        obtain ⟨_, s₁, hset, h⟩ := Sketching.bind_eq_ok.1 h
        cases hset
        obtain ⟨rfl, rfl⟩ := Sketching.pure_eq_ok.1 h
        exact .inr ⟨node, rfl, by simpa using hactive, rfl, rfl⟩

theorem create_eq_ok {id : Identity} {kind : NodeKind} {dependent : Option NodeId}
    {s s' : Sketch} {node : NodeId} (h : create id kind dependent s = .ok (node, s')) :
    node = s.nodes.length ∧ s' = s.create id kind dependent := by
  cases h
  exact ⟨rfl, rfl⟩

section

variable {plan : Plan} {walkBody : Walk → BodyId → Option NodeId → Sketching NodeId}
  (hbody : ∀ {walk id dependent s node s'}, walkBody walk id dependent s = .ok (node, s') →
    Visits plan walk (.body id node) dependent s s')

include hbody

theorem visits_of_walkSource {walk : Walk} {owner : BodyId} {dependent : NodeId}
    {source : Source} {s s' : Sketch}
    (h : walkSource plan walkBody walk owner dependent source s = .ok ((), s')) :
    Visits plan walk (.source owner source) dependent s s' := by
  unfold walkSource at h
  obtain ⟨answer, s₁, hknown, hrun⟩ := Sketching.bind_eq_ok.1 h
  clear h
  rcases known_eq_ok hknown with ⟨hnew, rfl, rfl⟩ | ⟨node, hlookup, hinactive, rfl, rfl⟩
  · cases horigin : source.origin with
    | collection ref =>
        simp only [horigin] at hrun
        cases hrun
        exact .collection hnew horigin
    | query sub =>
        simp only [horigin] at hrun
        obtain ⟨node, s₂, hvisit, hregister⟩ := Sketching.bind_eq_ok.1 hrun
        cases hregister
        exact .query hnew horigin (hbody hvisit)
  · obtain ⟨-, rfl⟩ := Sketching.pure_eq_ok.1 hrun
    exact .knownSource hlookup hinactive

theorem visits_of_walkSources {walk : Walk} {owner : BodyId} {dependent : NodeId}
    {sources : List Source} {s s' : Sketch}
    (h : walkSources plan walkBody walk owner dependent sources s = .ok ((), s')) :
    Visits plan walk (.sources owner sources) dependent s s' := by
  induction sources generalizing s with
  | nil =>
      obtain ⟨-, rfl⟩ := Sketching.pure_eq_ok.1 h
      exact .noSources
  | cons source rest ih =>
      obtain ⟨_, s₁, hfirst, hrest⟩ := Sketching.bind_eq_ok.1 h
      exact .moreSources (visits_of_walkSource hbody hfirst) (ih hrest)

mutual

theorem visits_of_walkExpr {walk : Walk} {owner : BodyId} {dependent : NodeId} {s s' : Sketch}
    (e : Expr) (h : walkExpr plan walkBody walk owner dependent e s = .ok ((), s')) :
    Visits plan walk (.expr owner e) dependent s s' := by
  unfold walkExpr at h
  obtain ⟨answer, s₁, hknown, hrun⟩ := Sketching.bind_eq_ok.1 h
  clear h
  rcases known_eq_ok hknown with ⟨hnew, rfl, rfl⟩ | ⟨node, hlookup, hinactive, rfl, rfl⟩
  · match e with
    | .literal id value =>
        cases hrun
        exact .literal hnew
    | .reference id path =>
        dsimp only at hrun
        cases hresolved : plan.resolve? walk.scopes path.base with
        | none =>
            rw [hresolved] at hrun
            cases hrun
        | some target =>
            obtain ⟨binder, source⟩ := target
            rw [hresolved] at hrun
            obtain ⟨node, s₂, hcreate, hvisit⟩ := Sketching.bind_eq_ok.1 hrun
            obtain ⟨rfl, rfl⟩ := create_eq_ok hcreate
            exact .reference hnew hresolved (visits_of_walkSource hbody hvisit)
    | .call id function args =>
        obtain ⟨node, s₂, hcreate, hvisits⟩ := Sketching.bind_eq_ok.1 hrun
        obtain ⟨rfl, rfl⟩ := create_eq_ok hcreate
        exact .call hnew (visits_of_walkExprs args hvisits)
    | .aggregate id function args =>
        obtain ⟨node, s₂, hcreate, hvisits⟩ := Sketching.bind_eq_ok.1 hrun
        obtain ⟨rfl, rfl⟩ := create_eq_ok hcreate
        exact .aggregate hnew (visits_of_walkExprs args hvisits)
    | .subquery id body =>
        obtain ⟨node, s₂, hcreate, hselect⟩ := Sketching.bind_eq_ok.1 hrun
        obtain ⟨rfl, rfl⟩ := create_eq_ok hcreate
        obtain ⟨inner, hvisit⟩ := Sketching.discard_eq_ok.1 hselect
        exact .subquery hnew (hbody hvisit)
  · obtain ⟨-, rfl⟩ := Sketching.pure_eq_ok.1 hrun
    exact .knownExpr hlookup hinactive

theorem visits_of_walkExprs {walk : Walk} {owner : BodyId} {dependent : NodeId} {s s' : Sketch}
    (es : List Expr) (h : walkExprs plan walkBody walk owner dependent es s = .ok ((), s')) :
    Visits plan walk (.exprs owner es) dependent s s' := by
  match es with
  | [] =>
      obtain ⟨-, rfl⟩ := Sketching.pure_eq_ok.1 h
      exact .noExprs
  | e :: rest =>
      obtain ⟨_, s₁, hfirst, hrest⟩ := Sketching.bind_eq_ok.1 h
      exact .moreExprs (visits_of_walkExpr e hfirst) (visits_of_walkExprs rest hrest)

end

end

/-- The walk of a body that ends without an error consists of visits. -/
theorem visits_of_walkBody {plan : Plan} {depth : Nat} {walk : Walk} {id : BodyId}
    {dependent : Option NodeId} {s s' : Sketch} {node : NodeId}
    (h : plan.walkBody depth walk id dependent s = .ok (node, s')) :
    Visits plan walk (.body id node) dependent s s' := by
  induction depth generalizing walk id dependent s s' node with
  | zero => cases h
  | succ depth ih =>
      unfold Plan.walkBody at h
      obtain ⟨answer, s₁, hknown, hrun⟩ := Sketching.bind_eq_ok.1 h
      clear h
      rcases known_eq_ok hknown with ⟨hnew, rfl, rfl⟩ | ⟨node', hlookup, hinactive, rfl, rfl⟩
      · obtain ⟨made, s₂, hcreate, hbelow⟩ := Sketching.bind_eq_ok.1 hrun
        obtain ⟨rfl, rfl⟩ := create_eq_ok hcreate
        obtain ⟨_, s₃, hsources, hafter⟩ := Sketching.bind_eq_ok.1 hbelow
        obtain ⟨_, s₄, hexprs, hchecked⟩ := Sketching.bind_eq_ok.1 hafter
        obtain ⟨_, s₅, hjoins, hdone⟩ := Sketching.bind_eq_ok.1 hchecked
        obtain ⟨rfl, rfl⟩ := Sketching.pure_eq_ok.1 hdone
        cases hcheck : plan.checkJoins (plan.body id) (plan.body id).joinConditions with
        | error e =>
            rw [hcheck] at hjoins
            cases hjoins
        | ok u =>
            rw [hcheck] at hjoins
            cases hjoins
            exact .newBody hnew (visits_of_walkSources ih hsources)
              (visits_of_walkExprs ih _ hexprs) hcheck
      · obtain ⟨rfl, rfl⟩ := Sketching.pure_eq_ok.1 hrun
        exact .knownBody hlookup hinactive

/-- The graph of an accepted query is what visiting its body leaves. -/
theorem visits_of_graph {plan : Plan} {query : BodyId} {g : Graph}
    (h : plan.graph query = .ok g) :
    ∃ s, Visits plan {} (.body query g.root) none {} s ∧ g.nodes = s.nodes ∧ g.index = s.index := by
  unfold Plan.graph at h
  split at h
  · cases h
  · split at h
    · cases h
    next root s hrun =>
      cases h
      exact ⟨s, visits_of_walkBody hrun, rfl, rfl⟩

end LiveQuery
