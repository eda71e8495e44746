import LiveQuery.Proofs.Engine.Reads
import LiveQuery.Proofs.Graph.Kinds
import LiveQuery.Proofs.Graph.Unfolding
import LiveQuery.Proofs.View.Agreement

/-!
# Bodies within bodies

To evaluate a body its sources are read and its subqueries are evaluated, each with the bodies that
it is made of in turn. In an accepted query no body is below itself, so this ends.

**Results.** `Engine.alike_unfolded`: the depth of the plan is enough to evaluate each body of an
accepted query. `Plan.build_ends`: the build of a query ends, rejects cyclic definitions, and what it
accepts can be evaluated.
-/

namespace LiveQuery

namespace Plan

variable {plan : Plan} {query body : BodyId} {g : Graph}

/-- What the upkeep of a body evaluates occurs in the body. -/
theorem occurs_of_blueprint (accepted : plan.graph query = .ok g) {e : Expr}
    (h : e ∈ (plan.blueprint g body).occurring) : e ∈ (plan.body body).occurring := by
  obtain ⟨top, htop, he⟩ := Expr.mem_subtermsOf.1 h
  have hof (htop : top ∈ (plan.body body).expressions) : e ∈ (plan.body body).occurring :=
    List.mem_flatMap.2 ⟨top, htop, he⟩
  simp only [List.append_assoc, List.mem_append] at htop
  rcases htop with hstep | hfilter | hexpr | haggregate
  · obtain ⟨step, hstep, htop⟩ := List.mem_flatMap.1 hstep
    obtain ⟨source, _, rfl⟩ := List.mem_map.1 hstep
    have hlookup := mem_of_lookup (Option.mem_toList.1 htop)
    exact hof ((plan.body body).joinExprs_subset_expressions
      (List.mem_map_of_mem (f := Prod.snd) hlookup))
  · exact hof ((plan.body body).filter_subset_expressions hfilter)
  · exact hof hexpr
  · obtain ⟨within, hwithin, htop⟩ :=
      List.mem_flatMap.1 (occurs_of_aggregatesOf accepted haggregate).2
    exact List.mem_flatMap.2 ⟨within, hwithin, Expr.subset_subterms within htop he⟩

/-- The subqueries that the upkeep of a body evaluates are held by the body. -/
theorem holds_of_blueprint (accepted : plan.graph query = .ok g) {id : ExprId} {sub : BodyId}
    (h : .subquery id sub ∈ (plan.blueprint g body).occurring) : plan.Holds body sub :=
  .subquery (occurs_of_blueprint accepted h)

/-- A body that is not nested evaluates no subqueries. -/
theorem no_subquery_of_flat (accepted : plan.graph query = .ok g)
    (flat : (plan.blueprint g body).nested = false) {id : ExprId} {sub : BodyId} :
    .subquery id sub ∉ (plan.blueprint g body).occurring := by
  intro hmem
  obtain ⟨top, htop, hmem⟩ := List.mem_flatMap.1 (occurs_of_blueprint accepted hmem)
  exact List.any_eq_false.1 flat top htop (List.any_eq_true.2 ⟨_, hmem, rfl⟩)

/-- Over all inputs a body that is not nested evaluates to the same, in any frames around it if it
reads nothing from outside. -/
theorem sees_of_flat (accepted : plan.graph query = .ok g)
    (flat : (plan.blueprint g body).nested = false) {outer outer' : List Frame}
    (around : outer = outer' ∨ plan.Within plan.depth body ∧ plan.isCorrelated body = false)
    (inputs inputs' : Inputs) :
    Evaluator.SeesWithin { plan, policy, inputs } outer { plan, policy, inputs := inputs' } outer'
      (plan.blueprint g body).joins.body (plan.blueprint g body).occurring := by
  intro frame hframe
  refine ⟨rfl, fun id path hmem => ?_, fun _ _ _ _ => rfl,
    fun id sub hmem => absurd hmem (no_subquery_of_flat accepted flat)⟩
  obtain rfl : frame.body = body := hframe
  rcases around with rfl | ⟨within, huncorrelated⟩
  · exact Evaluator.bound_eq (by rfl) _ _
  · unfold Evaluator.bound
    cases hposition : (plan.body frame.body).position? path.base with
    | some position => rfl
    | none =>
        have hfree := within.free_of_reference (occurs_of_blueprint accepted hmem)
          (Body.binds_of_position?_eq_none hposition)
        have hnone : plan.freeAliases frame.body = [] := by
          simpa [isCorrelated] using huncorrelated
        rw [hnone] at hfree
        cases hfree

end Plan

namespace Engine

/-- What evaluation reads, given what it reads of the bodies below. -/
def inputsStep (e : Engine) (below : Inputs) : Inputs where
  rows := fun source outer =>
    match source.origin with
    | .collection _ => .ok (((e.feeds.get? source.id).map Feed.rows).getD OrdMap.empty)
    | .query id =>
        match e.views.get? id, outer with
        | some view, _ => .ok view.visible
        | none, [] => .error (.unboundAlias source.name)
        | none, outer => View.visible <$> e.viewWithin below id outer
  subquery := fun id outer => do
    let view ←
      match e.views.get? id with
      | some view => .ok view
      | none => e.viewWithin below id outer
    return (view.output (e.blueprint id)).map Prod.snd

theorem inputsWithin_succ (e : Engine) (n : Nat) :
    e.inputsWithin (n + 1) = e.inputsStep (e.inputsWithin n) := rfl

/-- The evaluation of a query with its recursion unfolded a number of times. -/
def evaluatorUnfolded (e : Engine) (n : Nat) (left : Inputs) : Evaluator :=
  { plan := e.plan, policy := e.policy, inputs := e.inputsStep^[n] left }

variable {plan : Plan} {query body : BodyId} {policy : FieldPolicy} {e : Engine} {k m n : Nat}

/-- Evaluations that read the same of the bodies below a body do the same to its view. -/
theorem alike_of_below (built : e.plan.graph e.query = .ok e.graph) (body : BodyId) {inputs inputs' : Inputs}
    (hcollections : ∀ source ref, source.origin = .collection ref → ∀ outer,
      inputs.rows source outer = inputs'.rows source outer)
    (hbelow : ∀ sub, e.plan.Holds body sub → ∀ outer,
      inputs.subquery sub outer = inputs'.subquery sub outer ∧
        ∀ source, source.origin = .query sub → inputs.rows source outer = inputs'.rows source outer) :
    (e.blueprint body).Alike { plan := e.plan, policy := e.policy, inputs }
      { plan := e.plan, policy := e.policy, inputs := inputs' } := by
  refine ⟨⟨rfl, rfl, fun id sub hmem outer => ?_⟩, fun step hstep outer => ?_⟩
  · exact (hbelow sub (Plan.holds_of_blueprint built hmem) outer).1
  · obtain ⟨source, hsource, rfl⟩ := List.mem_map.1 hstep
    cases horigin : source.origin with
    | collection ref => exact hcollections source ref horigin outer
    | query sub => exact (hbelow sub (.source hsource horigin) outer).2 source horigin

theorem rows_of_collection (e : Engine) (left left' : Inputs) (m n : Nat) {source : Source}
    {ref : CollectionRef} (horigin : source.origin = .collection ref) (outer : List Frame) :
    (e.inputsStep^[m + 1] left).rows source outer
      = (e.inputsStep^[n + 1] left').rows source outer := by
  rw [Function.iterate_succ_apply', Function.iterate_succ_apply']
  simp only [inputsStep, horigin]

/-- Unfolded often enough, evaluation reads the same of a body, whatever stands for the calls that
are left. -/
theorem inputs_unfolded (h : e.Regular) (hwithin : e.plan.Within k body) (left left' : Inputs)
    (hm : k < m) (hn : k < n) (outer : List Frame) :
    (e.inputsStep^[m] left).subquery body outer = (e.inputsStep^[n] left').subquery body outer ∧
      ∀ source, source.origin = .query body →
        (e.inputsStep^[m] left).rows source outer = (e.inputsStep^[n] left').rows source outer := by
  induction hwithin generalizing m n outer with
  | @intro k body below ih =>
      obtain ⟨m, rfl⟩ : ∃ m', m = m' + 1 + 1 := ⟨m - 2, by omega⟩
      obtain ⟨n, rfl⟩ : ∃ n', n = n' + 1 + 1 := ⟨n - 2, by omega⟩
      have hview : e.viewWithin (e.inputsStep^[m + 1] left) body
          = e.viewWithin (e.inputsStep^[n + 1] left') body := by
        have halike := alike_of_below h.built body
          (fun source ref horigin => e.rows_of_collection left left' m n horigin)
          (fun sub hholds outer => ih sub hholds (by omega) (by omega) outer)
        funext outer
        unfold viewWithin
        simp only [halike.rederive_eq]
      rw [Function.iterate_succ_apply', Function.iterate_succ_apply' _ (n + 1)]
      refine ⟨?_, fun source horigin => ?_⟩
      · simp only [inputsStep, hview]
      · simp only [inputsStep, horigin, hview]

theorem alike_unfolded (h : e.Regular) (hwithin : e.plan.Within e.plan.depth body) (left : Inputs)
    (hn : e.plan.depth ≤ n) : (e.blueprint body).Alike (e.evaluatorUnfolded n left) e.evaluator := by
  unfold evaluatorUnfolded evaluator
  rw [eq_iterate_of_succ e.inputsWithin_succ]
  generalize e.plan.depth = k at hwithin hn
  cases hwithin with
  | @intro k _ below =>
      obtain ⟨n, rfl⟩ : ∃ n', n = n' + 1 := ⟨n - 1, by omega⟩
      exact alike_of_below h.built _
        (fun source ref horigin => e.rows_of_collection left _ n k horigin)
        fun sub hholds outer =>
          inputs_unfolded h (below sub hholds) left _ (by omega) (Nat.lt_succ_self k) outer

/-- An engine that is reached stays one for its plan and its query. -/
theorem Reached.made_for (h : Reached plan query policy e) : e.plan = plan ∧ e.query = query := by
  obtain ⟨start, hmade, -, hsettings⟩ := h.made_of
  obtain ⟨g, _, hstart⟩ := Except.bind_eq_ok.1 hmade
  obtain rfl := Except.pure_eq_ok.1 hstart
  exact ⟨congrArg (fun settings => settings.1) hsettings,
    congrArg (fun settings => settings.2.2.1) hsettings⟩

end Engine

namespace Plan

variable {plan : Plan} {query : BodyId}

/-- The build of a query ends: however its recursions go on after more steps than the plan has
bodies, the outcome is the same, and so it is for the listing of the nodes. A query with a cycle
below it is rejected. Below each body of an accepted query, the search for free aliases and the
evaluation of bodies within bodies come to an end. -/
theorem build_ends (hwritten : plan.Written) (hquery : query < plan.bodies.length) :
    (∀ n left, plan.depth < n → plan.graphUnfolded n left query = plan.graph query) ∧
    (∀ g, plan.graph query = .ok g → ∀ n cut, g.nodes.length < n →
      Node.inOrderUnfolded g.nodes n cut = g.order) ∧
    ((∃ body, Relation.ReflTransGen plan.Holds query body ∧
      Relation.TransGen plan.Holds body body) → ∃ error, plan.graph query = .error error) ∧
    ∀ g, plan.graph query = .ok g → ∀ body, Relation.ReflTransGen plan.Holds query body →
      plan.Grounded body ∧
      (∀ n cut, plan.depth ≤ n → plan.freeStep^[n] cut body = plan.freeAliases body) ∧
      ∀ policy e, Engine.Reached plan query policy e → ∀ n left, plan.depth ≤ n →
        (e.blueprint body).Alike (e.evaluatorUnfolded n left) e.evaluator := by
  have hgrounded : ∀ g, plan.graph query = .ok g → ∀ body,
      Relation.ReflTransGen plan.Holds query body → plan.Grounded body :=
    fun g accepted body hreach =>
      (grounded_of_graph accepted hwritten.sourcesApart hwritten.exprsApart).reach hreach
  refine ⟨fun n left hn => graph_unfolded hwritten hquery left hn,
    fun g accepted n cut hn => Node.inOrder_unfolded (rooted_of_graph accepted).mirrored cut hn,
    ?_, fun g accepted body hreach => ?_⟩
  · rintro ⟨body, hreach, hcycle⟩
    cases hgraph : plan.graph query with
    | error error => exact ⟨error, rfl⟩
    | ok g => exact absurd hcycle (hgrounded g hgraph body hreach).not_cyclic
  · have hground := hgrounded g accepted body hreach
    have hwithin := hwritten.within_of_graph accepted hquery hreach
    refine ⟨hground, fun n cut hn => hwithin.free_unfolded cut hn, fun policy e hreached n left hn => ?_⟩
    obtain ⟨rfl, -⟩ := hreached.made_for
    exact Engine.alike_unfolded hreached.regular hwithin left hn

/-- A query that reads itself, and one that reads the rows of a collection. -/
def circular : Plan :=
  let first := (do
    let circle ← Builder.bind "circle" (.query 0) none
    Builder.selectValue (.ref circle) : Builder Unit).run (openQuery {})
  let second := (do
    let rows ← Builder.bind "rows" (.collection ⟨0, "rows"⟩) none
    Builder.selectValue (.ref rows) : Builder Unit).run (openQuery first.2.plan)
  second.2.plan

theorem build_ends_circular :
    circular.Written ∧ (∃ error, circular.graph 0 = .error error) ∧
      ∃ g, circular.graph 1 = .ok g ∧ circular.Grounded 1 := by
  have hfirst : Draft.Written [] (openQuery {}) := .first
  have hcircle := hfirst.call (.bind "circle" (.query 0) none)
    ⟨fun _ h => absurd h List.not_mem_nil, fun _ h => by cases h; exact Nat.zero_lt_one⟩
  have hself := hcircle.call (.selectValue (.ref ⟨0, ⟨"circle", []⟩⟩))
    ⟨fun _ h => by cases List.mem_singleton.1 h; trivial, fun _ h => by cases h⟩
  have hrows := (hself.query rfl).call (.bind "rows" (.collection ⟨0, "rows"⟩) none)
    ⟨fun _ h => absurd h List.not_mem_nil, fun _ h => by cases h; trivial⟩
  have hsecond := hrows.call (.selectValue (.ref ⟨1, ⟨"rows", []⟩⟩))
    ⟨fun _ h => by cases List.mem_singleton.1 h; trivial, fun _ h => by cases h⟩
  have hwritten : circular.Written := ⟨_, _, hsecond, rfl⟩
  have hcycle : circular.Holds 0 0 := .source List.mem_cons_self rfl
  obtain ⟨g, hgraph⟩ : ∃ g, circular.graph 1 = .ok g := ⟨_, rfl⟩
  exact ⟨hwritten, (build_ends hwritten (by decide)).2.2.1 ⟨0, .refl, .single hcycle⟩,
    g, hgraph, ((build_ends hwritten (by decide)).2.2.2 g hgraph 1 .refl).1⟩

end Plan

end LiveQuery
