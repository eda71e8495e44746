import LiveQuery.Proofs.Graph.Cycles
import LiveQuery.Proofs.Plan.Unfolding

/-!
# The build of a query ends

The walk of a body calls itself for the bodies below it. The bodies being walked are different ones,
so unfolded once more than there are bodies, no call of the walk is left. The free aliases that join
conditions need are only looked for when the conditions have been walked, below grounded bodies.

**Results.** `Plan.graph_unfolded`: the build of a query ends, and `Node.inOrder_unfolded`: so does
the listing of its nodes.
-/

namespace LiveQuery

namespace Plan

/-- The alias joined after a source that the condition of its join reads, given the free aliases of
subqueries. -/
def laterAliasGiven? (free : BodyId → List String) (body : Body) (name : String) (cond : Expr) :
    Option String := do
  let bound ← body.position? name
  (cond.readAliases free).eraseDups.find? fun read =>
    match body.position? read with
    | some position => bound < position
    | none => false

/-- The check of join conditions, given the free aliases of subqueries. -/
def checkJoinsGiven (free : BodyId → List String) (body : Body) :
    List (String × Expr) → Except BuildError Unit
  | [] => .ok ()
  | (name, cond) :: rest =>
      match laterAliasGiven? free body name cond with
      | some later => .error (.laterAlias name later)
      | none => checkJoinsGiven free body rest

theorem checkJoins_eq (plan : Plan) (body : Body) (conditions : List (String × Expr)) :
    plan.checkJoins body conditions = checkJoinsGiven plan.freeAliases body conditions := by
  induction conditions with
  | nil => rfl
  | cons entry rest ih =>
      unfold checkJoins checkJoinsGiven
      rw [ih]
      rfl

/-- The walk of a body, given the check of join conditions and the walk of the bodies below. -/
def walkStep (plan : Plan) (checkJoins : Body → List (String × Expr) → Except BuildError Unit)
    (walkBody : Walk → BodyId → Option NodeId → Sketching NodeId) (walk : Walk) (id : BodyId)
    (dependent : Option NodeId) : Sketching NodeId := do
  match ← known walk (.body id) dependent with
  | some node => return node
  | none =>
      let node ← create (.body id) (.selection id) dependent
      let body := plan.body id
      let inner := walk.enter id
      walkSources plan walkBody inner id node body.sources
      walkExprs plan walkBody inner id node body.expressions
      checkJoins body body.joinConditions
      return node

theorem walkBody_succ (plan : Plan) (n : Nat) :
    plan.walkBody (n + 1) = plan.walkStep plan.checkJoins (plan.walkBody n) := rfl

/-- What stands for the calls that are left when the recursions of a build are unfolded. -/
structure Left where
  check : BodyId → List BodyId → Checked
  free : BodyId → List String
  walk : Walk → BodyId → Option NodeId → Sketching NodeId

/-- The build of a query, with its recursions unfolded a number of times. -/
def graphUnfolded (plan : Plan) (n : Nat) (left : Left) (query : BodyId) :
    Except BuildError Graph :=
  match plan.checkStep^[n] left.check query [] with
  | .error error => .error error
  | .ok _ =>
      let checkJoins := checkJoinsGiven (plan.freeStep^[n] left.free)
      match ((plan.walkStep checkJoins)^[n] left.walk {} query none).run {} with
      | .error error => .error error
      | .ok (root, sketch) => .ok { nodes := sketch.nodes, index := sketch.index, root }

end Plan

/-- The listing of nodes, given that of the nodes which are ready later. -/
def Node.listStep (nodes : List Node) (list : List Nat → List NodeId → List NodeId)
    (waiting : List Nat) : List NodeId → List NodeId
  | [] => []
  | k :: ready =>
      let (waiting, freed) := release waiting (dependentsIn nodes k)
      k :: list waiting (ready ++ freed)

/-! ## Walks -/

/-- The bodies that are being walked. -/
def Walk.bodies (walk : Walk) : List BodyId :=
  walk.active.filterMap fun
    | .body id => some id
    | _ => none

/-- A walk can go on: the bodies being walked are different ones of the plan, at least a given
number, and have been met; what is not being walked any more is grounded. -/
structure Sketch.Ready (plan : Plan) (walk : Walk) (n : Nat) (s : Sketch) : Prop where
  nodup : walk.bodies.Nodup
  lt : ∀ b ∈ walk.bodies, b < plan.bodies.length
  length : n ≤ walk.bodies.length
  met : ∀ b ∈ walk.bodies, s.Has (.body b)
  grounded : s.Grounded plan walk.active

namespace Sketch.Ready

variable {plan : Plan} {walk : Walk} {n : Nat} {s s' : Sketch}

/-- What was visited leaves a walk ready. -/
theorem visited (h : s.Ready plan walk n) (hwritten : plan.Written) {visited : Visited}
    {dependent : Option NodeId} (hvisits : Visits plan walk visited dependent s s')
    (hbelongs : visited.Belongs plan) : s'.Ready plan walk n where
  nodup := h.nodup
  lt := h.lt
  length := h.length
  met b hb := hvisits.has (h.met b hb)
  grounded := (hvisits.grounds hwritten.sourcesApart hwritten.exprsApart hbelongs h.grounded).1

/-- A body that has not been met is walked. -/
theorem enter (h : s.Ready plan walk n) {id : BodyId} (hid : id < plan.bodies.length)
    (hnew : s.index.lookup (.body id) = none) (kind : NodeKind) (dependent : Option NodeId) :
    (s.create (.body id) kind dependent).Ready plan (walk.enter id) (n + 1) where
  nodup := by
    refine List.nodup_cons.2 ⟨fun hmem => ?_, h.nodup⟩
    obtain ⟨node, hmet⟩ := h.met id hmem
    rw [hnew] at hmet
    cases hmet
  lt := List.forall_mem_cons.2 ⟨hid, h.lt⟩
  length := Nat.succ_le_succ h.length
  met := List.forall_mem_cons.2 ⟨(has_create _ _ _ _ _).2 (.inl rfl),
    fun b hb => (has_create _ _ _ _ _).2 (.inr (h.met b hb))⟩
  grounded := h.grounded.begin (has_create _ _ _ _)

/-- An expression is walked. -/
theorem inside (h : s.Ready plan walk n) (id : ExprId) (kind : NodeKind)
    (dependent : Option NodeId) :
    (s.create (.expr id) kind dependent).Ready plan (walk.inside (.expr id)) n where
  nodup := h.nodup
  lt := h.lt
  length := h.length
  met b hb := (has_create _ _ _ _ _).2 (.inr (h.met b hb))
  grounded := h.grounded.begin (has_create _ _ _ _)

/-- An expression is met that no body is held by. -/
theorem meet (h : s.Ready plan walk n) {id : ExprId} (hid : (Identity.expr id).Grounded plan)
    (kind : NodeKind) (dependent : Option NodeId) :
    (s.create (.expr id) kind dependent).Ready plan walk n where
  nodup := h.nodup
  lt := h.lt
  length := h.length
  met b hb := (has_create _ _ _ _ _).2 (.inr (h.met b hb))
  grounded := h.grounded.add hid (has_create _ _ _ _)

end Sketch.Ready

/-- Operations that begin with the same outcome and go on alike have the same outcome. -/
theorem Sketching.bind_congr {α β : Type} {x x' : Sketching α} {f f' : α → Sketching β} {s : Sketch}
    (hx : x s = x' s) (hf : ∀ a s', x' s = .ok (a, s') → f a s' = f' a s') :
    (x >>= f) s = (x' >>= f') s := by
  change (x s >>= fun p => f p.1 p.2) = (x' s >>= fun p => f' p.1 p.2)
  rw [hx]
  cases hrun : x' s with
  | error e => rfl
  | ok p => exact hf p.1 p.2 hrun

theorem Sketching.discard_congr {α : Type} {x x' : Sketching α} {s : Sketch} (hx : x s = x' s) :
    (discard x) s = (discard x') s := by
  change (x s >>= fun p => pure ((), p.2)) = (x' s >>= fun p => pure ((), p.2))
  rw [hx]

namespace Plan

section

variable {plan : Plan} {n : Nat}
  {walkBody walkBody' : Walk → BodyId → Option NodeId → Sketching NodeId}

/-- Walks of bodies that have the same outcome where a walk can go on, the second of which consists
of visits. -/
structure SameWalk (plan : Plan) (n : Nat)
    (walkBody walkBody' : Walk → BodyId → Option NodeId → Sketching NodeId) : Prop where
  same : ∀ walk id dependent s, id < plan.bodies.length → s.Ready plan walk n →
    walkBody walk id dependent s = walkBody' walk id dependent s
  visits : ∀ {walk id dependent s node s'}, walkBody' walk id dependent s = .ok (node, s') →
    Visits plan walk (.body id node) dependent s s'

theorem sameWalk_source (hsame : SameWalk plan n walkBody walkBody') (hwritten : plan.Written)
    {walk : Walk} {owner : BodyId} {dependent : NodeId} {source : Source} {s : Sketch}
    (hsource : source ∈ (plan.body owner).sources) (hready : s.Ready plan walk n) :
    walkSource plan walkBody walk owner dependent source s
      = walkSource plan walkBody' walk owner dependent source s := by
  refine Sketching.bind_congr rfl fun answer s₁ hknown => ?_
  rcases known_eq_ok hknown with ⟨hnew, rfl, rfl⟩ | ⟨node, hlookup, hinactive, rfl, rfl⟩
  · cases horigin : source.origin with
    | collection ref => rfl
    | query sub =>
        have hsub := hwritten.lt_of_holds (.source hsource horigin)
        exact Sketching.bind_congr (hsame.same _ _ _ _ hsub hready) fun _ _ _ => rfl
  · rfl

theorem sameWalk_sources (hsame : SameWalk plan n walkBody walkBody') (hwritten : plan.Written)
    {walk : Walk} {owner : BodyId} {dependent : NodeId} {sources : List Source} {s : Sketch}
    (hsources : ∀ t ∈ sources, t ∈ (plan.body owner).sources) (hready : s.Ready plan walk n) :
    walkSources plan walkBody walk owner dependent sources s
      = walkSources plan walkBody' walk owner dependent sources s := by
  induction sources generalizing s with
  | nil => rfl
  | cons source rest ih =>
      obtain ⟨hfirst, hrest⟩ := List.forall_mem_cons.1 hsources
      refine Sketching.bind_congr (sameWalk_source hsame hwritten hfirst hready) fun _ s₁ hrun => ?_
      exact ih hrest (hready.visited hwritten (visits_of_walkSource hsame.visits hrun) hfirst)

mutual

theorem sameWalk_expr (hsame : SameWalk plan n walkBody walkBody') (hwritten : plan.Written)
    {walk : Walk} {owner : BodyId} {dependent : NodeId} {s : Sketch} (e : Expr)
    (he : e ∈ (plan.body owner).occurring) (hready : s.Ready plan walk n) :
    walkExpr plan walkBody walk owner dependent e s
      = walkExpr plan walkBody' walk owner dependent e s := by
  unfold walkExpr
  refine Sketching.bind_congr rfl fun answer s₁ hknown => ?_
  rcases known_eq_ok hknown with ⟨hnew, rfl, rfl⟩ | ⟨node, hlookup, hinactive, rfl, rfl⟩
  · match e with
    | .literal id value => rfl
    | .reference id path =>
        dsimp only
        cases hresolved : plan.resolve? walk.scopes path.base with
        | none => rfl
        | some target =>
            obtain ⟨binder, source⟩ := target
            refine Sketching.bind_congr rfl fun node s₁ hcreate => ?_
            obtain ⟨rfl, rfl⟩ := create_eq_ok hcreate
            have hexpr := Identity.grounded_expr hwritten.exprsApart he
              (Identity.grounded_of_children he (fun _ h => by cases h) rfl)
            exact sameWalk_source hsame hwritten (mem_of_resolve? hresolved).1 (hready.meet hexpr _ _)
    | .call id function args =>
        refine Sketching.bind_congr rfl fun node s₁ hcreate => ?_
        obtain ⟨rfl, rfl⟩ := create_eq_ok hcreate
        exact sameWalk_exprs hsame hwritten args
          (fun arg harg => Body.occurring_of_child he harg) (hready.inside id _ _)
    | .aggregate id function args =>
        refine Sketching.bind_congr rfl fun node s₁ hcreate => ?_
        obtain ⟨rfl, rfl⟩ := create_eq_ok hcreate
        exact sameWalk_exprs hsame hwritten args
          (fun arg harg => Body.occurring_of_child he harg) (hready.inside id _ _)
    | .subquery id body =>
        refine Sketching.bind_congr rfl fun node s₁ hcreate => ?_
        obtain ⟨rfl, rfl⟩ := create_eq_ok hcreate
        have hbody := hwritten.lt_of_holds (.subquery he)
        exact Sketching.discard_congr (hsame.same _ _ _ _ hbody (hready.inside id _ _))
  · rfl

theorem sameWalk_exprs (hsame : SameWalk plan n walkBody walkBody') (hwritten : plan.Written)
    {walk : Walk} {owner : BodyId} {dependent : NodeId} {s : Sketch} (es : List Expr)
    (hes : ∀ e ∈ es, e ∈ (plan.body owner).occurring) (hready : s.Ready plan walk n) :
    walkExprs plan walkBody walk owner dependent es s
      = walkExprs plan walkBody' walk owner dependent es s := by
  match es with
  | [] => rfl
  | e :: rest =>
      obtain ⟨hfirst, hrest⟩ := List.forall_mem_cons.1 hes
      refine Sketching.bind_congr (sameWalk_expr hsame hwritten e hfirst hready) fun _ s₁ hrun => ?_
      exact sameWalk_exprs hsame hwritten rest hrest
        (hready.visited hwritten (visits_of_walkExpr hsame.visits e hrun) hfirst)

end

end

/-- The check of join conditions depends on the free aliases of the subqueries in them. -/
theorem checkJoinsGiven_congr {free free' : BodyId → List String} {body : Body}
    {conditions : List (String × Expr)}
    (h : ∀ entry ∈ conditions, ∀ id sub, .subquery id sub ∈ entry.2.subterms → free sub = free' sub) :
    checkJoinsGiven free body conditions = checkJoinsGiven free' body conditions := by
  induction conditions with
  | nil => rfl
  | cons entry rest ih =>
      obtain ⟨hfirst, hrest⟩ := List.forall_mem_cons.1 h
      unfold checkJoinsGiven laterAliasGiven?
      rw [readAliases_congr hfirst, ih hrest]

/-- However the calls that are left are answered, a walk unfolded more often than there are bodies
not being walked has the same outcome. -/
theorem sameWalk_body {plan : Plan} (hwritten : plan.Written) (free : BodyId → List String)
    (hfree : ∀ b, b < plan.bodies.length → plan.Grounded b → free b = plan.freeAliases b)
    (cut : Walk → BodyId → Option NodeId → Sketching NodeId) {k m n : Nat}
    (hm : plan.bodies.length < k + m) (hn : plan.bodies.length < k + n) {walk : Walk} {id : BodyId}
    {dependent : Option NodeId} {s : Sketch} (hid : id < plan.bodies.length)
    (hready : s.Ready plan walk k) :
    (plan.walkStep (checkJoinsGiven free))^[n] cut walk id dependent s
      = plan.walkBody m walk id dependent s := by
  induction m generalizing n k walk id dependent s with
  | zero =>
      have := Nat.le_trans hready.length (length_le_of_nodup_of_lt hready.nodup hready.lt)
      omega
  | succ m ih =>
      have hfew := Nat.le_trans hready.length (length_le_of_nodup_of_lt hready.nodup hready.lt)
      obtain ⟨n, rfl⟩ : ∃ n', n = n' + 1 := ⟨n - 1, by omega⟩
      rw [Function.iterate_succ_apply', walkBody_succ]
      refine Sketching.bind_congr rfl fun answer s₁ hknown => ?_
      rcases known_eq_ok hknown with ⟨hnew, rfl, rfl⟩ | ⟨node, hlookup, hinactive, rfl, rfl⟩
      · have hsame : SameWalk plan (k + 1) ((plan.walkStep (checkJoinsGiven free))^[n] cut)
            (plan.walkBody m) :=
          ⟨fun walk id dependent s hid hready => ih (by omega) (by omega) hid hready,
            visits_of_walkBody⟩
        refine Sketching.bind_congr rfl fun node s₁ hcreate => ?_
        obtain ⟨rfl, rfl⟩ := create_eq_ok hcreate
        have hready₁ := hready.enter hid hnew (.selection id) dependent
        have hsources : ∀ t ∈ (plan.body id).sources, t ∈ (plan.body id).sources := fun _ ht => ht
        have hexprs : ∀ e ∈ (plan.body id).expressions, e ∈ (plan.body id).occurring :=
          fun e he => (plan.body id).expressions_subset_occurring he
        refine Sketching.bind_congr (sameWalk_sources hsame hwritten hsources hready₁)
          fun _ s₂ hrun => ?_
        have hready₂ := hready₁.visited hwritten (visits_of_walkSources hsame.visits hrun) hsources
        refine Sketching.bind_congr (sameWalk_exprs hsame hwritten _ hexprs hready₂)
          fun _ s₃ hrun => ?_
        obtain ⟨_, hgrounded⟩ := (visits_of_walkExprs hsame.visits _ hrun).grounds
          hwritten.sourcesApart hwritten.exprsApart hexprs hready₂.grounded
        have hjoins : checkJoinsGiven free (plan.body id) (plan.body id).joinConditions
            = plan.checkJoins (plan.body id) (plan.body id).joinConditions := by
          rw [checkJoins_eq]
          refine checkJoinsGiven_congr fun entry hentry id' sub hmem => ?_
          have hcond : entry.2 ∈ (plan.body id).expressions :=
            (plan.body id).joinExprs_subset_expressions (List.mem_map_of_mem hentry)
          exact hfree sub (hwritten.lt_of_holds (.of_expression hcond hmem))
            (hgrounded _ (List.mem_map_of_mem hcond) id entry.2 (hexprs _ hcond) rfl id' sub hmem)
        rw [hjoins]
      · rfl

theorem graph_unfolded {plan : Plan} (hwritten : plan.Written) {query : BodyId}
    (hquery : query < plan.bodies.length) (left : Left) {n : Nat} (hn : plan.depth < n) :
    plan.graphUnfolded n left query = plan.graph query := by
  have hfree : ∀ b, b < plan.bodies.length → plan.Grounded b →
      plan.freeStep^[n] left.free b = plan.freeAliases b :=
    fun b hb hground => (hground.within hwritten hb).free_unfolded left.free (Nat.le_of_lt hn)
  have hready : ({} : Sketch).Ready plan {} 0 :=
    ⟨.nil, fun _ hb => absurd hb List.not_mem_nil, Nat.le_refl _,
      fun _ hb => absurd hb List.not_mem_nil, .empty plan []⟩
  have hwalk : (plan.walkStep (checkJoinsGiven (plan.freeStep^[n] left.free)))^[n] left.walk {} query
      none {} = plan.walkBody (plan.depth + 1) {} query none {} :=
    sameWalk_body hwritten _ hfree left.walk (by rw [depth]; omega) (by rw [depth] at hn; omega)
      hquery hready
  unfold graphUnfolded graph validate
  rw [checkBody_unfolded hwritten hquery left.check hn]
  cases plan.checkBody plan.depth query [] with
  | error e => rfl
  | ok seen =>
      dsimp only [StateT.run]
      exact hwalk ▸ rfl

end Plan

/-! ## Listings -/

namespace Node

/-- However the calls that are left are answered, a listing unfolded more often than there are nodes
not listed has the same outcome. -/
theorem Listing.list_unfolded {nodes : List Node} {done ready : List NodeId} {waiting : List Nat}
    (hmirror : Mirrored nodes) (h : Listing nodes done ready waiting)
    (cut : List Nat → List NodeId → List NodeId) {m n : Nat} (hm : nodes.length ≤ done.length + m)
    (hn : nodes.length < done.length + n) :
    (listStep nodes)^[n] cut waiting ready = listReady nodes m waiting ready := by
  have hfew : done.length + ready.length ≤ nodes.length := by
    rw [← List.length_append]
    exact length_le_of_nodup_of_lt h.nodup h.bounded
  obtain ⟨n, rfl⟩ : ∃ n', n = n' + 1 := ⟨n - 1, by omega⟩
  rw [Function.iterate_succ_apply']
  induction m generalizing n done ready waiting with
  | zero =>
      have hready : ready = [] := List.length_eq_zero_iff.1 (by omega)
      rw [hready]
      rfl
  | succ m ih =>
      cases ready with
      | nil => rfl
      | cons k ready =>
          have hnext := h.step hmirror
          have hfew' := length_le_of_nodup_of_lt hnext.nodup hnext.bounded
          rw [List.length_append] at hfew'
          rw [List.length_cons] at hfew
          obtain ⟨n, rfl⟩ : ∃ n', n = n' + 1 := ⟨n - 1, by omega⟩
          rw [Function.iterate_succ_apply']
          refine congrArg (k :: ·) (ih hnext (by rw [List.length_cons]; omega) hfew' n ?_)
          rw [List.length_cons]
          omega

/-- The order of nodes, with the listing unfolded a number of times. -/
def inOrderUnfolded (nodes : List Node) (n : Nat) (cut : List Nat → List NodeId → List NodeId) :
    List NodeId :=
  let free := (List.range nodes.length).filter fun k => (inputsIn nodes k).isEmpty
  (listStep nodes)^[n] cut (nodes.map (·.dependsOn.length)) free

theorem inOrder_unfolded {nodes : List Node} (hmirror : Mirrored nodes)
    (cut : List Nat → List NodeId → List NodeId) {n : Nat} (hn : nodes.length < n) :
    inOrderUnfolded nodes n cut = inOrder nodes :=
  (Listing.start nodes).list_unfolded hmirror cut (by simp) (by simpa using hn)

end Node

end LiveQuery
