import LiveQuery.Proofs.Engine.Lateral
import LiveQuery.Proofs.Graph.Aggregates
import LiveQuery.Proofs.Join.Keys

/-!
# What is bound when a join reads it

The sources of a body are bound one after the other. The condition of a join is evaluated as soon as
its source is bound, and a lateral source is read before it is. Of the sources that are not bound yet
nothing is known, and their aliases stand for `undefined`.

A query is accepted only if its join conditions read no later source. Of the sources that are queries
this is not asked. So a join condition never meets an unbound alias of its body, and a query source
does just if it reads its own alias, or one of a source after it.

**Results.** `Plan.checked_of_graph`; `Engine.reads_bound`, and `Engine.reads_unbound`: an accepted
query whose first source reads the second one.
-/

namespace LiveQuery

/-! ## What is checked of join conditions -/

/-- A new body is left with its join conditions checked. -/
theorem Visits.checked {plan : Plan} {walk : Walk} {visited : Visited} {dependent : Option NodeId}
    {s s' : Sketch} (h : Visits plan walk visited dependent s s') {body : BodyId}
    (hbody : s'.Has (.body body)) :
    s.Has (.body body) ∨ plan.checkJoins (plan.body body) (plan.body body).joinConditions = .ok () := by
  have hcreated : ∀ {s : Sketch} {id : ExprId} {kind : NodeKind} {dependent : Option NodeId},
      (s.create (.expr id) kind dependent).Has (.body body) → s.Has (.body body) :=
    fun hmet => ((Sketch.has_create _ _ _ _ _).1 hmet).resolve_left nofun
  induction h with
  | knownBody => exact .inl ((Sketch.has_link _ _ _ _).1 hbody)
  | newBody _ _ _ joins ihSources ihExprs =>
      rcases ihExprs hbody with hmet | hchecked
      · rcases ihSources hmet with hmet | hchecked
        · rcases (Sketch.has_create _ _ _ _ _).1 hmet with heq | hmet
          · cases heq
            exact .inr joins
          · exact .inl hmet
        · exact .inr hchecked
      · exact .inr hchecked
  | knownSource => exact .inl ((Sketch.has_link _ _ _ _).1 hbody)
  | collection => exact .inl (((Sketch.has_create _ _ _ _ _).1 hbody).resolve_left nofun)
  | query _ _ _ ih => exact ih (((Sketch.has_register _ _ _ _).1 hbody).resolve_left nofun)
  | noSources => exact .inl hbody
  | moreSources _ _ ihFirst ihOthers =>
      exact (ihOthers hbody).elim ihFirst .inr
  | knownExpr => exact .inl ((Sketch.has_link _ _ _ _).1 hbody)
  | literal => exact .inl (hcreated hbody)
  | reference _ _ _ ih => exact (ih hbody).imp_left hcreated
  | call _ _ ih => exact (ih hbody).imp_left hcreated
  | aggregate _ _ ih => exact (ih hbody).imp_left hcreated
  | subquery _ _ ih => exact (ih hbody).imp_left hcreated
  | noExprs => exact .inl hbody
  | moreExprs _ _ ihFirst ihOthers =>
      exact (ihOthers hbody).elim ihFirst .inr

namespace Plan

variable {plan : Plan}

/-- The join conditions of all bodies below an accepted query are checked. -/
theorem checked_of_graph (written : plan.Written) {query body : BodyId} {g : Graph}
    (accepted : plan.graph query = .ok g) (reach : Relation.ReflTransGen plan.Holds query body) :
    plan.checkJoins (plan.body body) (plan.body body).joinConditions = .ok () := by
  obtain ⟨s, hvisits, -⟩ := visits_of_graph accepted
  have hexplored := hvisits.explores written.sourcesApart written.exprsApart Walks.root
    (.empty plan query)
  obtain ⟨outer, hnests⟩ := exists_nests_of_reach reach
  refine (hvisits.checked (hexplored.has_of_nests hvisits.met hnests)).resolve_left ?_
  rintro ⟨_, hempty⟩
  cases hempty

theorem laterAlias?_of_checkJoins {body : Body} {conditions : List (String × Expr)}
    (h : plan.checkJoins body conditions = .ok ()) :
    ∀ name cond, (name, cond) ∈ conditions → plan.laterAlias? body name cond = none := by
  induction conditions with
  | nil => simp
  | cons entry rest ih =>
      obtain ⟨name, cond⟩ := entry
      rw [checkJoins] at h
      cases hlater : plan.laterAlias? body name cond with
      | some later =>
          rw [hlater] at h
          cases h
      | none =>
          rw [hlater] at h
          intro name' cond' hmem
          rcases List.mem_cons.1 hmem with heq | hmem
          · cases heq
            exact hlater
          · exact ih h name' cond' hmem

/-- A checked condition reads the sources up to its own only. -/
theorem position_le_of_laterAlias? {body : Body} {own : String} {cond : Expr} {position : Nat}
    (h : plan.laterAlias? body own cond = none) (hposition : body.position? own = some position)
    {name : String} (hname : name ∈ plan.exprAliases cond) {p : Nat}
    (hp : body.position? name = some p) : p ≤ position := by
  rw [laterAlias?, hposition] at h
  have hnot := List.find?_eq_none.1 h name hname
  rw [hp] at hnot
  exact Nat.le_of_not_lt fun hlt => hnot (decide_eq_true hlt)

end Plan

/-- The alias of a source stands for it, or for one before it. -/
theorem Body.exists_position?_le {body : Body} {i : Nat} {source : Source}
    (hsource : body.sources[i]? = some source) :
    ∃ position, body.position? source.name = some position ∧ position ≤ i := by
  obtain ⟨hlt, rfl⟩ := List.getElem?_eq_some_iff.1 hsource
  cases hposition : body.position? body.sources[i].name with
  | none =>
      have hnone := List.findIdx?_eq_none_iff.1 hposition _ (List.getElem_mem hlt)
      simp at hnone
  | some position =>
      obtain ⟨_, _, hfirst⟩ := List.findIdx?_eq_some_iff_getElem.1 hposition
      exact ⟨position, rfl, Nat.le_of_not_lt fun hbefore => by simpa using hfirst i hbefore⟩

/-! ## What a partial tuple binds -/

namespace JoinPlan

variable {ev : Evaluator} {body : BodyId} {outer : List Frame} {fixed : Option (Nat × Rows)}

/-- Before a step of the join a tuple binds the sources of the steps before it. -/
theorem length_env_of_runSteps {steps : List JoinStep} {tuples : List PartialTuple}
    (h : runSteps ev body outer fixed 0 [{}] steps = .ok tuples) :
    ∀ t ∈ tuples, t.env.length = steps.length := by
  have hstart : ∀ c ∈ ([[]] : List Combination), c.length = 0 := by simp
  obtain ⟨cs, rfl, hcs⟩ := runSteps_combine (P := fun position cs => ∀ c ∈ cs, c.length = position)
    (fun _ _ _ _ _ cs hcs _ c' hc' => length_of_mem_next hc' hcs) hstart h
  intro t ht
  obtain ⟨c, hc, rfl⟩ := List.mem_map.1 ht
  rw [Combination.toPartial, Combination.env, List.length_map, hcs c hc, Nat.zero_add]

/-- An alias of the body stands for what is bound at its position. -/
theorem bound_frames {name : String} {p : Nat}
    (hp : (ev.plan.body body).position? name = some p) (env : List Scalar) :
    ev.bound name (frames body outer env) = .ok (env[p]?.getD .undefined) := by
  rw [frames, Evaluator.bound]
  simp only [hp, List.getD_eq_getElem?_getD]

/-- What is bound to an alias stays when more sources are bound. -/
theorem bound_frames_append {name : String} {env : List Scalar}
    (hbound : ∀ p, (ev.plan.body body).position? name = some p → p < env.length)
    (later : List Scalar) :
    ev.bound name (frames body outer (env ++ later)) = ev.bound name (frames body outer env) := by
  cases hposition : (ev.plan.body body).position? name with
  | none => simp only [frames, Evaluator.bound, hposition]
  | some p =>
      rw [bound_frames hposition, bound_frames hposition,
        List.getElem?_append_left (hbound p hposition)]

end JoinPlan

namespace Engine

variable {plan : Plan} {query : BodyId} {policy : FieldPolicy} {e : Engine}

open JoinPlan (frames)

/-- An expression whose aliases are bound has the value that it has when more sources are bound. -/
theorem eval_append (h : e.Regular)
    (within : ∀ body, Relation.ReflTransGen e.plan.Holds e.query body →
      e.plan.Within e.plan.depth body) (depth : Nat) {body : BodyId}
    (reach : Relation.ReflTransGen e.plan.Holds e.query body) {outer : List Frame} {cond : Expr}
    (hcond : cond ∈ (e.plan.body body).expressions) {env : List Scalar}
    (hbound : ∀ name ∈ e.plan.exprAliases cond, ∀ p,
      (e.plan.body body).position? name = some p → p < env.length) (later : List Scalar) :
    Evaluator.eval { plan := e.plan, policy, inputs := e.inputsWithin depth }
        (frames body outer (env ++ later)) cond
      = Evaluator.eval { plan := e.plan, policy, inputs := e.inputsWithin depth }
        (frames body outer env) cond := by
  have hsees : Evaluator.Sees { plan := e.plan, policy, inputs := e.inputsWithin depth }
      (frames body outer (env ++ later)) { plan := e.plan, policy, inputs := e.inputsWithin depth }
      (frames body outer env) cond.subterms := by
    refine ⟨rfl, fun id path hmem => ?_, fun _ _ _ _ => rfl, fun id sub hmem => ?_⟩
    · have hread : path.base ∈ e.plan.exprAliases cond :=
        List.mem_eraseDups.2 (List.mem_flatMap.2 ⟨_, hmem, List.mem_singleton.2 rfl⟩)
      exact JoinPlan.bound_frames_append (hbound _ hread) later
    · have hholds : e.plan.Holds body sub := .subquery (List.mem_flatMap.2 ⟨cond, hcond, hmem⟩)
      refine (inputs_outside h.built within depth (reach.tail hholds) ⟨by simp [frames], ?_⟩).1
      intro name hname
      have hread : name ∈ e.plan.exprAliases cond :=
        List.mem_eraseDups.2 (List.mem_flatMap.2 ⟨_, hmem, hname⟩)
      exact JoinPlan.bound_frames_append (hbound _ hread) later
  exact hsees.eval_eq cond (List.Subset.refl _)

/-- When a join reads the source at a position, the sources before it are bound. The condition of
the join is evaluated with that source bound as well, and each alias that it reads of its body, also
in subqueries, is bound; what is bound later changes nothing. A query source may read any alias of
its body: if all are of sources before it they are bound, and what is bound later changes nothing,
but its own alias and those of the sources after it stand for `undefined`. -/
theorem reads_bound (written : plan.Written) (hquery : query < plan.bodies.length)
    (reached : Reached plan query policy e) {body : BodyId}
    (reach : Relation.ReflTransGen plan.Holds query body) {i : Nat} {source : Source}
    (hsource : (plan.body body).sources[i]? = some source) (depth : Nat) (outer : List Frame)
    (fixed : Option (Nat × Rows)) :
    let ev : Evaluator := { plan, policy, inputs := e.inputsWithin depth }
    (∀ tuples, JoinPlan.runSteps ev body outer fixed 0 [{}] ((plan.joinPlan body).steps.take i)
      = .ok tuples → ∀ t ∈ tuples, t.env.length = i) ∧
    (∀ cond, (plan.body body).joinCondition? source.name = some cond →
      ∀ env : List Scalar, env.length = i + 1 →
        (∀ name ∈ plan.exprAliases cond, ∀ p, (plan.body body).position? name = some p →
          p ≤ i ∧ ∃ value, env[p]? = some value ∧ ev.bound name (frames body outer env) = .ok value) ∧
        ∀ later, ev.eval (frames body outer (env ++ later)) cond
          = ev.eval (frames body outer env) cond) ∧
    ∀ sub, source.origin = .query sub → ∀ env : List Scalar, env.length = i →
      (∀ name ∈ plan.freeAliases sub, ∀ p, (plan.body body).position? name = some p →
        (p < i → ∃ value, env[p]? = some value ∧ ev.bound name (frames body outer env) = .ok value) ∧
        (i ≤ p → ev.bound name (frames body outer env) = .ok .undefined)) ∧
      ((∀ name ∈ plan.freeAliases sub, ∀ p, (plan.body body).position? name = some p → p < i) →
        ∀ later, ev.inputs.rows source (frames body outer (env ++ later))
          = ev.inputs.rows source (frames body outer env)) := by
  intro ev
  obtain ⟨rfl, rfl⟩ := reached.made_for
  have built := reached.regular.built
  have within : ∀ body, Relation.ReflTransGen e.plan.Holds e.query body →
      e.plan.Within e.plan.depth body := fun body reach => written.within_of_graph built hquery reach
  have hlt := (List.getElem?_eq_some_iff.1 hsource).1
  have hbound {name : String} {p : Nat} {env : List Scalar}
      (hp : (e.plan.body body).position? name = some p) (hlength : p < env.length) :
      ∃ value, env[p]? = some value ∧ ev.bound name (frames body outer env) = .ok value :=
    ⟨env[p], List.getElem?_eq_getElem hlength, by
      rw [JoinPlan.bound_frames hp, List.getElem?_eq_getElem hlength, Option.getD_some]⟩
  refine ⟨fun tuples htuples t ht => ?_, fun cond hcond env henv => ?_,
    fun sub horigin env henv => ⟨fun name hname p hp => ⟨fun hbefore => ?_, fun hafter => ?_⟩,
      fun hbefore later => ?_⟩⟩
  · rw [JoinPlan.length_env_of_runSteps htuples t ht, Plan.joinPlan, List.length_take,
      List.length_map, Nat.min_eq_left hlt.le]
  · have hmem := mem_of_lookup hcond
    obtain ⟨position, hposition, hle⟩ := Body.exists_position?_le hsource
    have hnone := Plan.laterAlias?_of_checkJoins (Plan.checked_of_graph written built reach) _ _ hmem
    have hread : ∀ name ∈ e.plan.exprAliases cond, ∀ p,
        (e.plan.body body).position? name = some p → p ≤ i := fun name hname p hp =>
      (Plan.position_le_of_laterAlias? hnone hposition hname hp).trans hle
    have hlength {name : String} (hname : name ∈ e.plan.exprAliases cond) {p : Nat}
        (hp : (e.plan.body body).position? name = some p) : p < env.length :=
      henv ▸ Nat.lt_succ_of_le (hread name hname p hp)
    have hexpr : cond ∈ (e.plan.body body).expressions :=
      (e.plan.body body).joinExprs_subset_expressions (List.mem_map_of_mem (f := Prod.snd) hmem)
    exact ⟨fun name hname p hp => ⟨hread name hname p hp, hbound hp (hlength hname hp)⟩,
      eval_append reached.regular within depth reach hexpr fun name hname p => hlength hname⟩
  · exact hbound hp (henv ▸ hbefore)
  · rw [JoinPlan.bound_frames hp, List.getElem?_eq_none (henv ▸ hafter), Option.getD_none]
  · have hholds : e.plan.Holds body sub := .source (List.mem_of_getElem? hsource) horigin
    refine (inputs_outside built within depth (reach.tail hholds) ⟨by simp [frames], ?_⟩).2 source
      horigin
    intro name hname
    exact JoinPlan.bound_frames_append (fun p hp => henv ▸ hbefore name hname p hp) later

/-- A query over one collection, and one whose first source reads an alias by the name of the first
query's, which its own second source has. -/
def early : Plan :=
  ({} : Plan).write
    [[.bind "r" (.collection ⟨0, "c"⟩) none,
      .select [.field "x" (.ref ⟨0, ⟨"r", ["x"]⟩⟩)]],
     [.openBody, .bind "u" (.collection ⟨0, "c"⟩) none, .filter (.ref ⟨0, ⟨"r", ["x"]⟩⟩),
      .select [.field "x" (.ref ⟨2, ⟨"u", ["x"]⟩⟩)], .closeBody,
      .bind "w" (.query 2) none,
      .bind "r" (.collection ⟨1, "d"⟩) (some .inner), .on ⟨1, ⟨"r", []⟩⟩ (.ref ⟨1, ⟨"w", ["x"]⟩⟩),
      .select [.field "x" (.ref ⟨1, ⟨"w", ["x"]⟩⟩)]]]

theorem early_written : early.Written :=
  Plan.written_write ⟨[], .first⟩ (by decide +kernel)

/-- The source that reads an alias of a source after it. -/
def earlySource : Source :=
  ⟨2, "w", .query 2, none⟩

/-- The rows of that source in frames of its body. -/
def earlyRows (e : Engine) (env : List Scalar) : Except EvalError Rows :=
  (e.inputsWithin 2).rows earlySource (frames 1 [] env)

/-- The row of the second source. -/
def earlyRow : Scalar :=
  .record (.cons "x" (.int 1) .nil)

/-- A row in each collection: the first source has none before the second is bound, and one when it
is. -/
theorem exists_early :
    ∃ e, Reached early 1 .undefined e ∧
      ((earlyRows e []).toOption.map OrdMap.keys,
        (earlyRows e [.undefined, earlyRow]).toOption.map OrdMap.keys)
      = (some [], some [⟨[.int 1]⟩]) :=
  exists_loaded (fun _ => .numbered [1]) (by decide +kernel)

/-- The condition of the second source reads the first, which is bound. -/
theorem reads_bound_early :
    ∃ e, Reached early 1 .undefined e ∧ ∃ source cond,
      (early.body 1).sources[1]? = some source ∧
      (early.body 1).joinCondition? source.name = some cond ∧ "w" ∈ early.exprAliases cond ∧
      Evaluator.bound { plan := early, policy := .undefined, inputs := e.inputsWithin 2 } "w"
        (frames 1 [] [earlyRow, .undefined]) = .ok earlyRow ∧
      ∀ later, Evaluator.eval { plan := early, policy := .undefined, inputs := e.inputsWithin 2 }
          (frames 1 [] ([earlyRow, .undefined] ++ later)) cond
        = Evaluator.eval { plan := early, policy := .undefined, inputs := e.inputsWithin 2 }
          (frames 1 [] [earlyRow, .undefined]) cond := by
  obtain ⟨e, hreached, -⟩ := exists_early
  have hsource : (early.body 1).sources[1]? = some ⟨3, "r", .collection ⟨1, "d"⟩, some .inner⟩ := by
    decide +kernel
  have hcond : (early.body 1).joinCondition? "r" = some (.reference 2 ⟨"w", ["x"]⟩) := by rfl
  have hread : "w" ∈ early.exprAliases (.reference 2 ⟨"w", ["x"]⟩) := by decide +kernel
  obtain ⟨-, hbound, -⟩ := reads_bound early_written (by decide +kernel) hreached .refl hsource 2 []
    none
  obtain ⟨hvalues, hlater⟩ := hbound _ hcond [earlyRow, .undefined] rfl
  obtain ⟨-, value, hvalue, hboundTo⟩ := hvalues "w" hread 0 (by decide +kernel)
  cases hvalue
  exact ⟨e, hreached, _, _, hsource, hcond, hread, hboundTo, hlater⟩

/-- The first source of an accepted query reads an alias of the second, which is not bound yet: the
alias stands for `undefined`, and the row that there would be is not. -/
theorem reads_unbound :
    ∃ e, Reached early 1 .undefined e ∧ (early.body 1).sources[0]? = some earlySource ∧
      earlySource.origin = .query 2 ∧ "r" ∈ early.freeAliases 2 ∧
      (early.body 1).position? "r" = some 1 ∧
      Evaluator.bound { plan := early, policy := .undefined, inputs := e.inputsWithin 2 } "r"
        (frames 1 [] []) = .ok .undefined ∧
      ∃ unbound bound, earlyRows e [] = .ok unbound ∧
        earlyRows e [.undefined, earlyRow] = .ok bound ∧ unbound.keys = [] ∧
        bound.keys = [⟨[.int 1]⟩] := by
  obtain ⟨e, hreached, hkeys⟩ := exists_early
  obtain ⟨hunbound, hbound⟩ := Prod.mk.inj hkeys
  obtain ⟨unbound, hrows, hnone⟩ := Option.map_eq_some_iff.1 hunbound
  obtain ⟨bound, hrows', hone⟩ := Option.map_eq_some_iff.1 hbound
  have hposition : (early.body 1).position? "r" = some 1 := by decide +kernel
  exact ⟨e, hreached, by decide +kernel, rfl, by decide +kernel, hposition,
    JoinPlan.bound_frames hposition [], unbound, bound, Except.of_toOption hrows,
    Except.of_toOption hrows', hnone, hone⟩

end Engine

end LiveQuery
