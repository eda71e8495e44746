import LiveQuery.Proofs.Engine.Nesting
import LiveQuery.Proofs.Join.Combination
import LiveQuery.Proofs.Join.Lateral

/-!
# Query sources that read nothing of their own body

What a body puts out depends on the frames around it through its free aliases only. So a query
source none of whose free aliases is bound by the body that it is a source of has the same rows for
each combination of the rows before it. It is a lateral source all the same, if it reads an
enclosing body, and its rows that join nothing are not kept then, whatever the join.

**Results.** `Engine.inputs_outside`; `Engine.lateral_exact`, and `Engine.lateral_loses`: what is
lost.
-/

namespace LiveQuery

namespace Engine

variable {e : Engine} {body sub : BodyId} {frames frames' : List Frame}

/-! ## Frames around a body -/

/-- In a frame of a body, an alias that is free in the body if it is not bound by it stands for the
same. -/
theorem bound_within
    (bound : ∀ name ∈ e.plan.freeAliases body,
      e.evaluator.bound name frames = e.evaluator.bound name frames')
    {frame : Frame} (hframe : frame.body = body) {name : String}
    (hname : (e.plan.body body).binds name = false → name ∈ e.plan.freeAliases body) :
    e.evaluator.bound name (frame :: frames) = e.evaluator.bound name (frame :: frames') := by
  subst hframe
  unfold Evaluator.bound
  cases hposition : (e.plan.body frame.body).position? name with
  | some position => simp only [evaluator, hposition]
  | none =>
      simp only [evaluator, hposition]
      exact bound name (hname (Body.binds_of_position?_eq_none hposition))

/-- Frames in which the free aliases of a body stand for the same. -/
structure SameOutside (e : Engine) (body : BodyId) (frames frames' : List Frame) : Prop where
  nested : frames = [] ↔ frames' = []
  bound : ∀ name ∈ e.plan.freeAliases body,
    e.evaluator.bound name frames = e.evaluator.bound name frames'

namespace SameOutside

/-- A body binds the free aliases of the bodies it holds, or has them free. -/
theorem below
    (bound : ∀ name ∈ e.plan.freeAliases body,
      e.evaluator.bound name frames = e.evaluator.bound name frames')
    (within : e.plan.Within e.plan.depth body) (holds : e.plan.Holds body sub) {frame : Frame}
    (hframe : frame.body = body) : e.SameOutside sub (frame :: frames) (frame :: frames') where
  nested := by simp
  bound _ hname := bound_within bound hframe fun hbinds => within.free_of_holds holds hname hbinds

/-- A body that reads nothing from outside is the same everywhere. -/
theorem of_uncorrelated (h : e.plan.isCorrelated sub = false) (nested : frames = [] ↔ frames' = []) :
    e.SameOutside sub frames frames' where
  nested := nested
  bound name hname := by
    have hnone : e.plan.freeAliases sub = [] := by simpa [Plan.isCorrelated] using h
    rw [hnone] at hname
    cases hname

/-- A body is the same in a frame that binds none of its free aliases. -/
theorem of_frame {frame : Frame} {outer : List Frame} (houter : outer ≠ [])
    (h : ∀ name ∈ e.plan.freeAliases sub, (e.plan.body frame.body).binds name = false) :
    e.SameOutside sub (frame :: outer) outer where
  nested := by simp [houter]
  bound name hname := by
    rw [Evaluator.bound]
    simp only [evaluator, Body.position?_eq_none (h name hname)]

end SameOutside

/-- The rows of a query source depend on what is evaluated of the query. -/
theorem rows_eq_of_viewWithin {inputs : Inputs} {source : Source} (horigin : source.origin = .query sub)
    (nested : frames = [] ↔ frames' = [])
    (hview : e.viewWithin inputs sub frames = e.viewWithin inputs sub frames') :
    (e.inputsStep inputs).rows source frames = (e.inputsStep inputs).rows source frames' := by
  simp only [inputsStep, horigin]
  cases e.views.get? sub with
  | some view => rfl
  | none =>
      cases frames with
      | nil => rw [nested.1 rfl]
      | cons frame outer =>
          cases frames' with
          | nil => exact absurd (nested.2 rfl) (List.cons_ne_nil _ _)
          | cons frame' outer' => simp only [hview]

/-- A body is evaluated alike in frames in which its free aliases stand for the same, if the bodies
that it holds are, in its frames, and those that read nothing from outside are around it. -/
theorem alikeWithin_outside (built : e.plan.graph e.query = .ok e.graph)
    (within : e.plan.Within e.plan.depth body)
    (bound : ∀ name ∈ e.plan.freeAliases body,
      e.evaluator.bound name frames = e.evaluator.bound name frames') (depth : Nat)
    (hbelow : ∀ sub, e.plan.Holds body sub → ∀ frame : Frame, frame.body = body →
      (e.inputsWithin depth).subquery sub (frame :: frames)
          = (e.inputsWithin depth).subquery sub (frame :: frames') ∧
        ∀ source, source.origin = .query sub →
          (e.inputsWithin depth).rows source (frame :: frames)
            = (e.inputsWithin depth).rows source (frame :: frames'))
    (hshared : ∀ source ∈ (e.plan.body body).sources, ∀ sub, source.origin = .query sub →
      e.plan.isCorrelated sub = false →
        (e.inputsWithin depth).rows source frames = (e.inputsWithin depth).rows source frames') :
    (e.blueprint body).AlikeWithin
      { plan := e.plan, policy := e.policy, inputs := e.inputsWithin depth } frames
      { plan := e.plan, policy := e.policy, inputs := e.inputsWithin depth } frames' := by
  refine ⟨fun frame hframe => ⟨rfl, fun id path hmem => ?_, fun _ _ _ _ => rfl,
    fun id sub hmem => ?_⟩, fun step hstep env => ?_, fun step hstep hlateral => ?_⟩
  · have hdeep (frames : List Frame) :
        Evaluator.bound { plan := e.plan, policy := e.policy, inputs := e.inputsWithin depth }
          path.base frames = e.evaluator.bound path.base frames :=
      Evaluator.bound_eq (by rfl) _ _
    rw [hdeep, hdeep]
    exact bound_within bound hframe fun hbinds =>
      within.free_of_reference (Plan.occurs_of_blueprint built hmem) hbinds
  · exact (hbelow sub (Plan.holds_of_blueprint built hmem) frame hframe).1
  · obtain ⟨source, hsource, rfl⟩ := List.mem_map.1 hstep
    cases horigin : source.origin with
    | collection ref => cases depth <;> simp only [inputsWithin, horigin]
    | query sub => exact (hbelow sub (.source hsource horigin) _ rfl).2 source horigin
  · obtain ⟨source, hsource, rfl⟩ := List.mem_map.1 hstep
    cases horigin : source.origin with
    | collection ref => cases depth <;> simp only [inputsWithin, horigin]
    | query sub =>
        exact hshared source hsource sub horigin (by simpa [Plan.isLateral, horigin] using hlateral)

/-- What a body puts out is the same in frames in which its free aliases stand for the same. -/
theorem inputs_outside (built : e.plan.graph e.query = .ok e.graph)
    (within : ∀ body, Relation.ReflTransGen e.plan.Holds e.query body →
      e.plan.Within e.plan.depth body) (depth : Nat)
    (reach : Relation.ReflTransGen e.plan.Holds e.query body)
    (same : e.SameOutside body frames frames') :
    (e.inputsWithin depth).subquery body frames = (e.inputsWithin depth).subquery body frames' ∧
      ∀ source, source.origin = .query body →
        (e.inputsWithin depth).rows source frames = (e.inputsWithin depth).rows source frames' := by
  induction depth generalizing body frames frames' with
  | zero => exact ⟨rfl, fun _ _ => rfl⟩
  | succ depth ih =>
      have halike := alikeWithin_outside built (within body reach) same.bound depth
        (fun sub holds frame hframe =>
          ih (reach.tail holds) (.below same.bound (within body reach) holds hframe))
        (fun source hsource sub horigin huncorrelated =>
          (ih (reach.tail (.source hsource horigin))
            (.of_uncorrelated huncorrelated same.nested)).2 source horigin)
      have hview : e.viewWithin (e.inputsWithin depth) body frames
          = e.viewWithin (e.inputsWithin depth) body frames' := by
        unfold viewWithin
        simp only [halike.rederive_eq]
      rw [inputsWithin_succ]
      refine ⟨?_, fun source horigin => rows_eq_of_viewWithin horigin same.nested hview⟩
      simp only [inputsStep, hview]

/-! ## Sources that read nothing of their own body -/

variable {plan : Plan} {query : BodyId} {policy : FieldPolicy}

/-- A query source that refers to no alias of its own body has the same rows for each combination of
the rows before it. -/
theorem rows_outside (h : e.Regular)
    (within : ∀ body, Relation.ReflTransGen e.plan.Holds e.query body →
      e.plan.Within e.plan.depth body) {depth : Nat}
    (reach : Relation.ReflTransGen e.plan.Holds e.query sub) {source : Source}
    (horigin : source.origin = .query sub)
    (outside : ∀ name ∈ e.plan.freeAliases sub, (e.plan.body body).binds name = false)
    {outer : List Frame} {rows : Rows}
    (hrows : (e.inputsWithin depth).rows source outer = .ok rows) (env : List Scalar) :
    (e.inputsWithin depth).rows source (JoinPlan.frames body outer env) = .ok rows := by
  by_cases houter : outer = []
  · -- a view is there, or nothing could be read
    subst houter
    cases depth with
    | zero => cases hrows
    | succ depth =>
        simp only [inputsWithin, horigin] at hrows ⊢
        cases hview : e.views.get? sub with
        | none =>
            rw [hview] at hrows
            cases hrows
        | some view =>
            rw [hview] at hrows
            exact hrows
  · rw [← hrows]
    exact (inputs_outside h.built within depth reach (.of_frame houter outside)).2 source horigin

/-- A query source that refers to no alias of its own body is joined as if its rows, evaluated in
the frames around the body, were given, whatever the join does with rows that join nothing. But if
the source is lateral, as it is when it refers to an alias of an enclosing body, the join is without
its rows that join nothing. -/
theorem lateral_exact (written : plan.Written) (hquery : query < plan.bodies.length)
    (reached : Reached plan query policy e) {body : BodyId}
    (reach : Relation.ReflTransGen plan.Holds query body) {position : Nat} {source : Source}
    (hsource : (plan.body body).sources[position]? = some source) {sub : BodyId}
    (horigin : source.origin = .query sub)
    (outside : ∀ name ∈ plan.freeAliases sub, (plan.body body).binds name = false) (depth : Nat)
    (outer : List Frame) {rows : Rows}
    (hrows : (e.inputsWithin depth).rows source outer = .ok rows) :
    let ev : Evaluator := { plan, policy, inputs := e.inputsWithin depth }
    (plan.joinPlan body).enumerate ev outer none
        = (if plan.isLateral source then (plan.joinPlan body).inwardAt position
            else plan.joinPlan body).enumerate ev outer (some (position, rows)) ∧
      (source.join.any JoinKind.keepsRight = false →
        (plan.joinPlan body).enumerate ev outer none
          = (plan.joinPlan body).enumerate ev outer (some (position, rows))) := by
  intro ev
  obtain ⟨rfl, rfl⟩ := reached.made_for
  have within : ∀ body, Relation.ReflTransGen e.plan.Holds e.query body →
      e.plan.Within e.plan.depth body :=
    fun body reach => written.within_of_graph reached.regular.built hquery reach
  obtain ⟨step, hstep, hsame, hlateral⟩ : ∃ step, (e.plan.joinPlan body).steps[position]? = some step ∧
      step.source = source ∧ step.lateral = e.plan.isLateral source := by
    refine ⟨_, by rw [Plan.joinPlan, List.getElem?_map, hsource]; rfl, rfl, rfl⟩
  subst hsame
  have hmain : (e.plan.joinPlan body).enumerate ev outer none
      = (if e.plan.isLateral step.source then (e.plan.joinPlan body).inwardAt position
          else e.plan.joinPlan body).enumerate ev outer (some (position, rows)) := by
    cases hkind : e.plan.isLateral step.source with
    | true =>
        have hholds : e.plan.Holds body sub := .source (List.mem_of_getElem? hsource) horigin
        exact JoinPlan.enumerate_lateral hstep (hlateral.trans hkind) fun env =>
          rows_outside reached.regular within (reach.tail hholds) horigin outside hrows env
    | false => exact JoinPlan.enumerate_given hstep (hlateral.trans hkind) hrows
  refine ⟨hmain, fun hinner => ?_⟩
  rw [hmain, JoinPlan.inwardAt_of_keepsRight hstep hinner, ite_self]

/-- A query for rows of `c`, each with all rows of `d` if its field is there. -/
def enclosed : Plan :=
  ({} : Plan).write
    [[.bind "p" (.collection ⟨0, "c"⟩) none,
      .openBody, .bind "u" (.collection ⟨0, "c"⟩) none,
      .openBody, .bind "v" (.collection ⟨1, "d"⟩) none, .filter (.ref ⟨0, ⟨"p", ["x"]⟩⟩),
      .select [.field "x" (.ref ⟨2, ⟨"v", ["x"]⟩⟩)], .closeBody,
      .bind "w" (.query 2) (some .right), .onFields ⟨1, ⟨"w", []⟩⟩ [("x", .ref ⟨1, ⟨"u", ["x"]⟩⟩)],
      .select [.field "x" (.ref ⟨1, ⟨"w", ["x"]⟩⟩)], .closeBody,
      .bind "s" (.query 1) (some .inner), .on ⟨0, ⟨"s", []⟩⟩ (.value (.bool true)),
      .select [.field "x" (.ref ⟨0, ⟨"s", ["x"]⟩⟩)]]]

theorem enclosed_written : enclosed.Written :=
  Plan.written_write ⟨[], .first⟩ (by decide +kernel)

/-- The source that reads an enclosing body, and nothing of its own. -/
def enclosedSource : Source :=
  ⟨3, "w", .query 2, some .right⟩

/-- The frame of a row of `c` around the body of that source. -/
def enclosing : List Frame :=
  [{ body := 0, env := [.record (.cons "x" (.int 1) .nil)] }]

theorem enclosed_outside :
    ∀ name ∈ enclosed.freeAliases 2, (enclosed.body 1).binds name = false := by
  decide +kernel

/-- The keys of the tuples of the join, and of those where the rows of the source are given. -/
def enclosedKeys (e : Engine) : Option (List Key × List Key) := do
  let ev : Evaluator := { plan := enclosed, policy := .strict, inputs := e.inputsWithin 2 }
  let rows ← (ev.inputs.rows enclosedSource enclosing).toOption
  let read ← ((enclosed.joinPlan 1).enumerate ev enclosing none).toOption
  let given ← ((enclosed.joinPlan 1).enumerate ev enclosing (some (1, rows))).toOption
  some (read.map Tuple.key, given.map Tuple.key)

/-- One row of `c`, and one row of `d` with its field and one without. -/
theorem exists_enclosed :
    ∃ e, Reached enclosed 0 .strict e ∧ enclosedKeys e = some
      ([⟨[.int 1, .int 1]⟩], [⟨[.int 1, .int 1]⟩, ⟨[.null, .int 2]⟩]) :=
  exists_loaded (fun c => if c = 0 then .numbered [1] else .numbered [1, 2]) (by decide +kernel)

/-- The join that reads an enclosing body is an inner one, although it is written as one that keeps
the rows of the source. -/
theorem lateral_exact_enclosed :
    ∃ e, Reached enclosed 0 .strict e ∧ ∃ rows,
      (e.inputsWithin 2).rows enclosedSource enclosing = .ok rows ∧
        (enclosed.joinPlan 1).enumerate
            { plan := enclosed, policy := .strict, inputs := e.inputsWithin 2 } enclosing none
          = ((enclosed.joinPlan 1).inwardAt 1).enumerate
            { plan := enclosed, policy := .strict, inputs := e.inputsWithin 2 } enclosing
            (some (1, rows)) := by
  obtain ⟨e, hreached, hkeys⟩ := exists_enclosed
  obtain ⟨rows, hrows, -⟩ := Option.bind_eq_some_iff.1 hkeys
  have hrows := Except.of_toOption hrows
  have hmem : ⟨4, "s", .query 1, some .inner⟩ ∈ (enclosed.body 0).sources := by decide +kernel
  have hreach : Relation.ReflTransGen enclosed.Holds 0 1 := .single (.source hmem rfl)
  have hsource : (enclosed.body 1).sources[1]? = some enclosedSource := by decide +kernel
  have hlateral : enclosed.isLateral enclosedSource = true := by decide +kernel
  obtain ⟨hexact, -⟩ := lateral_exact enclosed_written (by decide +kernel) hreached hreach hsource rfl
    enclosed_outside 2 enclosing hrows
  rw [if_pos hlateral] at hexact
  exact ⟨e, hreached, rows, hrows, hexact⟩

/-- A source that refers to no alias of its own body, but to one of an enclosing body, is right
joined: the row of it that joins nothing is lost, and would be kept if its rows were given. -/
theorem lateral_loses :
    ∃ e, Reached enclosed 0 .strict e ∧ (enclosed.body 1).sources[1]? = some enclosedSource ∧
      (∀ name ∈ enclosed.freeAliases 2, (enclosed.body 1).binds name = false) ∧
      ∃ rows read given, (e.inputsWithin 2).rows enclosedSource enclosing = .ok rows ∧
        (enclosed.joinPlan 1).enumerate
            { plan := enclosed, policy := .strict, inputs := e.inputsWithin 2 } enclosing none
          = .ok read ∧
        (enclosed.joinPlan 1).enumerate
            { plan := enclosed, policy := .strict, inputs := e.inputsWithin 2 } enclosing
            (some (1, rows)) = .ok given ∧
        read.map Tuple.key = [⟨[.int 1, .int 1]⟩] ∧
        given.map Tuple.key = [⟨[.int 1, .int 1]⟩, ⟨[.null, .int 2]⟩] := by
  obtain ⟨e, hreached, hkeys⟩ := exists_enclosed
  obtain ⟨rows, hrows, hkeys⟩ := Option.bind_eq_some_iff.1 hkeys
  obtain ⟨read, hread, hkeys⟩ := Option.bind_eq_some_iff.1 hkeys
  obtain ⟨given, hgiven, hkeys⟩ := Option.bind_eq_some_iff.1 hkeys
  obtain ⟨hfirst, hsecond⟩ := Prod.mk.inj (Option.some.inj hkeys)
  have hsource : (enclosed.body 1).sources[1]? = some enclosedSource := by decide +kernel
  exact ⟨e, hreached, hsource, enclosed_outside, rows, read, given, Except.of_toOption hrows,
    Except.of_toOption hread, Except.of_toOption hgiven, hfirst, hsecond⟩

end Engine

end LiveQuery
