import LiveQuery.Proofs.Engine.Keys
import LiveQuery.Proofs.Engine.Provision
import LiveQuery.Proofs.View.Staging

/-!
# Runs of upkeep

The tuples of a view are all derived, or it follows changes, again and again, while its inputs
change from call to call. After each call its groups and its output rows are those that are made of
its tuples over the inputs of this call.

So a value is only taken out of an aggregate that holds it, and no engine ever fails otherwise.

**Invariant.** `View.Intact`, of the views that successful upkeep leads to (`Plan.Upkept`).

**Results.** `Plan.views_maintained`, and `Plan.views_unstarted`: what is not there before the
tuples of a view are first derived.
-/

namespace LiveQuery

/-! ## Corruption -/

/-- An error other than that of a value which an aggregate does not hold. -/
def EvalError.Uncorrupted (error : EvalError) : Prop :=
  ∀ aggregate group, error ≠ .aggregateStateCorruption aggregate group

theorem EvalError.uncorrupted_of_ordinary (error : EvalError) (h : error.Ordinary) :
    error.Uncorrupted := by
  rintro aggregate group rfl
  exact h

/-- No rows and no output are missing because of corruption. -/
structure Inputs.Uncorrupted (inputs : Inputs) : Prop where
  rows : ∀ source outer, Provided EvalError.Uncorrupted (inputs.rows source outer)
  subquery : ∀ sub outer, Provided EvalError.Uncorrupted (inputs.subquery sub outer)

theorem Inputs.Uncorrupted.evaluates {plan : Plan} {policy : FieldPolicy} {inputs : Inputs}
    (h : inputs.Uncorrupted) (b : Blueprint) (outer : List Frame) :
    b.Evaluates EvalError.Uncorrupted { plan, policy, inputs } outer := by
  have hfed : b.Fed EvalError.Uncorrupted { plan, policy, inputs } :=
    ⟨EvalError.uncorrupted_of_ordinary, fun step _ => h.rows step.source,
      fun _ sub _ => h.subquery sub⟩
  exact hfed.evaluates (fun _ _ _ heq => by cases heq) outer

/-! ## One call -/

/-- What upkeep maintains of a view, given whether its tuples have once been all derived. -/
structure View.Intact (b : Blueprint) (ev : Evaluator) (outer : List Frame) (started : Bool)
    (view : View) : Prop where
  grouped : view.Grouped b ev outer
  populated : view.Populated b
  indexed : view.Indexed b
  staged : view.Exact b ev outer ∨ view.Bare ∧ started = false

namespace View.Intact

variable {b : Blueprint} {ev : Evaluator} {outer : List Frame} {started : Bool} {view after : View}
  {changes : List Change}

theorem emptyView (b : Blueprint) (ev : Evaluator) (outer : List Frame) :
    b.emptyView.Intact b ev outer false where
  grouped := .emptyView b ev outer
  populated := b.populated_emptyView
  indexed := .emptyView b
  staged := .inr ⟨⟨fun _ => rfl, fun _ => rfl⟩, rfl⟩

theorem of_sees (h : view.Intact b ev outer started) {ev' : Evaluator} {outer' : List Frame}
    (hsees : ev.SeesWithin outer ev' outer' b.joins.body b.occurring) :
    view.Intact b ev' outer' started where
  grouped := h.grouped.of_sees hsees
  populated := h.populated
  indexed := h.indexed
  staged := h.staged.imp_left fun hexact => hexact.of_sees hsees

/-- After all tuples were derived, the view is intact, and of a body that is not nested it has to be
intact before. -/
theorem rederive (indexed : view.Indexed b) (h : b.nested = false → view.Intact b ev outer started)
    (run : b.rederive ev outer view = .ok changes after) : after.Intact b ev outer true := by
  have hends := Blueprint.ends_rederive (fun flat => (h flat).grouped) (.of_any b ev outer)
  rw [run] at hends
  obtain ⟨hgrouped, hpopulated, hexact⟩ := hends.of_ok
  exact {
    grouped := hgrouped
    populated := hpopulated fun flat => (h flat).populated
    indexed := (Blueprint.indexed_rederive ev outer indexed).of_ok run
    staged := .inl (hexact fun flat => (h flat).staged.imp_right And.left) }

/-- Following changes leaves a view intact. -/
theorem follow (h : view.Intact b ev [] started) (inner : ∀ step ∈ b.joins.steps, step.Inner)
    {changed : List (Nat × List Key)} (run : b.follow ev changed view = .ok changes after) :
    after.Intact b ev [] started := by
  have hends := Blueprint.ends_follow h.grouped h.indexed inner (.of_any b ev []) changed
  rw [run] at hends
  obtain ⟨hgrouped, hpopulated, hexact, hbare⟩ := hends.of_ok
  exact {
    grouped := hgrouped
    populated := hpopulated h.populated
    indexed := (Blueprint.indexed_follow ev changed h.indexed).of_ok run
    staged := by
      rcases h.staged with hstart | ⟨hstart, hnever⟩
      · exact .inl (hexact hstart)
      · exact (hbare h.populated hstart).imp_right fun hafter => ⟨hafter, hnever⟩ }

end View.Intact

namespace Plan

variable {plan : Plan} {query body : BodyId} {g : Graph} {policy : FieldPolicy}

/-! ## Runs -/

/-- The views that successful upkeep of a body leads to in given frames, with the inputs of the last
call and whether all tuples have once been derived. Only a body of inner joins that reads nothing
from the frames can follow changes; the lists of changed keys need not be complete. -/
inductive Upkept (plan : Plan) (g : Graph) (policy : FieldPolicy) (body : BodyId)
    (outer : List Frame) : Bool → Inputs → View → Prop
  | made (inputs : Inputs) :
      Upkept plan g policy body outer false inputs (plan.blueprint g body).emptyView
  | derived {started : Bool} {inputs inputs' : Inputs} {view after : View} {changes : List Change}
      (before : Upkept plan g policy body outer started inputs view)
      (run : (plan.blueprint g body).rederive { plan, policy, inputs := inputs' } outer view
        = .ok changes after) : Upkept plan g policy body outer true inputs' after
  | followed {started : Bool} {inputs inputs' : Inputs} {view after : View} {changes : List Change}
      {changed : List (Nat × List Key)}
      (before : Upkept plan g policy body outer started inputs view)
      (incremental : plan.isIncremental body = true)
      (around : outer = [] ∨ plan.isCorrelated body = false)
      (run : (plan.blueprint g body).follow { plan, policy, inputs := inputs' } changed view
        = .ok changes after) : Upkept plan g policy body outer started inputs' after

/-- Each call leaves the view intact for its own inputs. -/
theorem Upkept.intact (accepted : plan.graph query = .ok g) (within : plan.Within plan.depth body)
    {outer : List Frame} {started : Bool} {inputs : Inputs} {view : View}
    (h : Upkept plan g policy body outer started inputs view) :
    view.Intact (plan.blueprint g body) { plan, policy, inputs } outer started := by
  induction h with
  | made inputs => exact .emptyView _ _ outer
  | derived before run ih =>
      exact .rederive ih.indexed (fun flat =>
        ih.of_sees (sees_of_flat accepted flat (.inl rfl) _ _)) run
  | followed before incremental around run ih =>
      have flat : (plan.blueprint g body).nested = false := flat_of_incremental incremental
      have hafter := (ih.of_sees (sees_of_flat accepted flat
        (around.imp_right (And.intro within)) _ _)).follow (inner_of_incremental incremental) run
      exact hafter.of_sees (sees_of_flat accepted flat
        (around.imp Eq.symm (And.intro within)) _ _)

end Plan

/-! ## Engines -/

namespace Engine

/-- However deep bodies are evaluated, no value is taken out of an aggregate that does not hold it:
their views are all new. -/
theorem uncorrupted_within (e : Engine) (depth : Nat) : (e.inputsWithin depth).Uncorrupted := by
  induction depth with
  | zero =>
      have hdeep : EvalError.tooDeep.Uncorrupted := fun _ _ heq => by cases heq
      exact ⟨fun _ _ => .error hdeep, fun _ _ => .error hdeep⟩
  | succ depth ih =>
      have hview (body : BodyId) (outer : List Frame) : Provided EvalError.Uncorrupted
          (e.viewWithin (e.inputsWithin depth) body outer) :=
        provided_viewWithin (ih.evaluates _ outer)
      rw [inputsWithin_succ]
      exact ⟨fun _ outer => provided_rows EvalError.uncorrupted_of_ordinary outer
        fun sub _ => hview sub, fun sub outer => provided_subquery (hview sub outer)⟩

theorem guards_uncorrupted : Guards Settled EvalError.Uncorrupted where
  passes e _ entry _ row := by
    have hinputs := e.uncorrupted_within e.plan.depth
    refine provided_meets fun cond _ => ⟨EvalError.uncorrupted_of_ordinary, fun x _ _ => ?_,
      fun _ sub _ => hinputs.subquery sub _⟩
    exact Evaluator.provided_aggregateValue (fun _ _ _ heq => by cases heq) _ x
  fed _ _ h _ := h.setFeeds _
  started e _ _ h _ := h.safe_start ((e.uncorrupted_within e.plan.depth).evaluates _ [])
  updated e changed _ _ h hview :=
    h.safe_updateView changed hview ((e.uncorrupted_within e.plan.depth).evaluates _ [])

end Engine

namespace Plan

variable {plan : Plan} {query body : BodyId} {g : Graph}

/-- After any run of successful upkeep of a body below an accepted query, the tuples are parted into
groups with the states of their aggregates. There is an output row for each group that `having`
keeps, or for each tuple, from the first derivation of all tuples on; before it that is so as well,
or there are no tuples and no rows. No value is taken out of an aggregate that does not hold it,
neither in such a run nor by any engine, whatever failed before. -/
theorem views_maintained (written : plan.Written) (hquery : query < plan.bodies.length)
    (accepted : plan.graph query = .ok g) (reach : Relation.ReflTransGen plan.Holds query body)
    (policy : FieldPolicy) (outer : List Frame) :
    (∀ started inputs view, Upkept plan g policy body outer started inputs view →
      ((plan.blueprint g body).grouped = true →
        view.Parted (plan.blueprint g body) { plan, policy, inputs } outer) ∧
      (started = true → view.PutsOut (plan.blueprint g body) { plan, policy, inputs } outer) ∧
      (started = false →
        view.PutsOut (plan.blueprint g body) { plan, policy, inputs } outer ∨ view.Bare) ∧
      ∀ next : Inputs, next.Uncorrupted → ∀ error after,
        ((plan.blueprint g body).rederive { plan, policy, inputs := next } outer view
          = .error error after → error.Uncorrupted) ∧
        ∀ changed, plan.isIncremental body = true →
          outer = [] ∨ plan.isCorrelated body = false →
          (plan.blueprint g body).follow { plan, policy, inputs := next } changed view
            = .error error after → error.Uncorrupted) ∧
    ∀ e, Engine.Reached plan query policy e →
      (e.inputsWithin e.plan.depth).Uncorrupted ∧
      (∀ contents error e', Engine.load contents e = .error error e' → error.Uncorrupted) ∧
      ∀ collection batch error e', Engine.apply collection batch e = .error error e' →
        error.Uncorrupted := by
  have within := written.within_of_graph accepted hquery reach
  refine ⟨fun started inputs view h => ?_, fun e h => ?_⟩
  · have hview := h.intact accepted within
    refine ⟨hview.grouped.parted hview.populated, fun hstarted => ?_, fun _ => ?_,
      fun next hnext error after => ⟨fun hrun => ?_, fun changed incremental around hrun => ?_⟩⟩
    · rcases hview.staged with hexact | ⟨-, hnever⟩
      · exact hexact.putsOut hview.grouped
      · cases hstarted.symm.trans hnever
    · exact hview.staged.imp (fun hexact => hexact.putsOut hview.grouped) And.left
    · have fails : (plan.blueprint g body).Evaluates EvalError.Uncorrupted
          { plan, policy, inputs := next } outer := hnext.evaluates _ outer
      have hends := Blueprint.ends_rederive (fun flat =>
        hview.grouped.of_sees (sees_of_flat accepted flat (.inl rfl) _ next)) fails
      rw [hrun] at hends
      exact hends.of_error.2
    · have flat : (plan.blueprint g body).nested = false := flat_of_incremental incremental
      have hgrouped := hview.grouped.of_sees (sees_of_flat accepted flat
        (around.imp_right (And.intro within)) inputs next)
      have hends := Blueprint.ends_follow hgrouped hview.indexed (inner_of_incremental incremental)
        (hnext.evaluates _ []) changed
      rw [hrun] at hends
      exact hends.of_error.2
  · have hsettled := h.settled
    exact ⟨e.uncorrupted_within _,
      fun contents _ _ => (Engine.guards_uncorrupted.safe_load contents hsettled).failure,
      fun collection batch _ _ =>
        (Engine.guards_uncorrupted.safe_apply collection batch hsettled).failure⟩

/-- How many rows of a collection have each value of the field `x`. -/
def tallies : Plan :=
  ({} : Plan).write
    [[.aggregate .count [], .bind "c" (.collection ⟨0, "c"⟩) none,
      .groupBy [.ref ⟨0, ⟨"c", ["x"]⟩⟩],
      .select [.field "x" (.ref ⟨0, ⟨"c", ["x"]⟩⟩), .field "n" (.expr (.aggregate 0 .count []))]]]

theorem tallies_written : tallies.Written := by
  have hcount := Draft.Written.first.call (.aggregate .count [])
    (Draft.Call.held_of_isPlain (by decide +kernel))
  have hrows := hcount.call (.bind "c" (.collection ⟨0, "c"⟩) none)
    (Draft.Call.held_of_isPlain (by decide +kernel))
  have hgroups := hrows.call (.groupBy [.ref ⟨0, ⟨"c", ["x"]⟩⟩])
    (Draft.Call.held_of_isPlain (by decide +kernel))
  have hselect := hgroups.call
    (.select [.field "x" (.ref ⟨0, ⟨"c", ["x"]⟩⟩), .field "n" (.expr (.aggregate 0 .count []))])
    ⟨fun operand h => by
      rcases List.mem_cons.1 h with rfl | h
      · trivial
      · cases List.mem_singleton.1 h
        exact List.mem_singleton.2 rfl, fun _ h => by cases h⟩
  exact ⟨_, _, hselect, rfl⟩

/-- Two rows with different values are counted, then one of them gets the value of the other. -/
def tallyAgain (g : Graph) : Upkeep (List Change) := do
  let _ ← (tallies.blueprint g 0).rederive
    { plan := tallies, policy := .strict, inputs := inputsOf [(1, 7), (2, 8)] } []
  (tallies.blueprint g 0).follow
    { plan := tallies, policy := .strict, inputs := inputsOf [(1, 8), (2, 8)] }
    [(0, [.ofScalar (.int 1)])]

/-- A row leaves its group, which vanishes, and joins that of another row. -/
theorem views_maintained_tallies :
    tallies.Written ∧ 0 < tallies.bodies.length ∧ ∃ g, tallies.graph 0 = .ok g ∧
      ∃ view, Upkept tallies g .strict 0 [] true (inputsOf [(1, 8), (2, 8)]) view ∧
        view.staged.entries.map (fun entry => (entry.1, entry.2.row))
          = [(⟨[.int 8]⟩, .cons "n" (.int 2) (.cons "x" (.int 8) .nil))] ∧
        view.Parted (tallies.blueprint g 0)
          { plan := tallies, policy := .strict, inputs := inputsOf [(1, 8), (2, 8)] } [] ∧
        view.PutsOut (tallies.blueprint g 0)
          { plan := tallies, policy := .strict, inputs := inputsOf [(1, 8), (2, 8)] } [] := by
  obtain ⟨g, accepted, hrun⟩ : ∃ g, tallies.graph 0 = .ok g ∧ EStateM.run' (do
      let _ ← tallyAgain g
      return (← get).staged.entries.map fun entry => (entry.1, entry.2.row))
        (tallies.blueprint g 0).emptyView
      = some [(⟨[.int 8]⟩, .cons "n" (.int 2) (.cons "x" (.int 8) .nil))] :=
    Except.exists_of_toOption (by decide +kernel)
  obtain ⟨changes, view, hcalls, hrows⟩ := exists_of_run' hrun
  obtain ⟨_, derived, hderive, hfollow⟩ := bind_eq_ok.1 hcalls
  have hupkept : Upkept tallies g .strict 0 [] true (inputsOf [(1, 8), (2, 8)]) view :=
    ((Upkept.made (inputsOf [])).derived hderive).followed (by decide +kernel) (.inl rfl) hfollow
  have hgrouped : (tallies.body 0).isGrouped = true := by decide +kernel
  have hview := (views_maintained tallies_written (by decide +kernel) accepted .refl .strict []).1
    true _ view hupkept
  exact ⟨tallies_written, by decide +kernel, g, accepted, view, hupkept, hrows,
    hview.1 hgrouped, hview.2.1 rfl⟩

/-- Before all tuples are derived, a view that follows changes lacks the row of the group that is
there without `group by`. -/
theorem views_unstarted :
    (counting 1).Written ∧ 0 < (counting 1).bodies.length ∧ ∃ g, (counting 1).graph 0 = .ok g ∧
      ∃ view, Upkept (counting 1) g .strict 0 [] false (inputsOf []) view ∧
        ((counting 1).blueprint g 0).grouped = true ∧ view.groups.keys = [⟨[]⟩] ∧
        view.staged.keys = [] ∧
        ¬view.PutsOut ((counting 1).blueprint g 0)
          { plan := counting 1, policy := .strict, inputs := inputsOf [] } [] := by
  obtain ⟨g, accepted, hrun⟩ : ∃ g, (counting 1).graph 0 = .ok g ∧ EStateM.run' (do
      let _ ← ((counting 1).blueprint g 0).follow
        { plan := counting 1, policy := .strict, inputs := inputsOf [] }
        [(0, [.ofScalar (.int 1)])]
      let view ← get
      return (view.groups.keys, view.staged.keys)) ((counting 1).blueprint g 0).emptyView
      = some ([⟨[]⟩], []) :=
    Except.exists_of_toOption (by decide +kernel)
  obtain ⟨changes, view, hfollow, hkeys⟩ := exists_of_run' hrun
  obtain ⟨hgroups, hstaged⟩ := Prod.mk.inj hkeys
  have hgrouped : ((counting 1).body 0).isGrouped = true := by decide +kernel
  refine ⟨counting_written (.inr rfl), by decide +kernel, g, accepted, view,
    (Upkept.made (inputsOf [])).followed (by decide +kernel) (.inl rfl) hfollow, hgrouped, hgroups,
    hstaged, fun hputs => ?_⟩
  obtain ⟨group, hget⟩ : ∃ group, view.groups.get? ⟨[]⟩ = some group :=
    OrdMap.mem_keys.1 (hgroups ▸ List.mem_singleton.2 rfl)
  obtain ⟨env, -, kept, hkept, hyes, -⟩ := hputs.group hgrouped _ group hget
  -- there is no condition for groups
  have hadmits : kept = true := (Except.ok.inj hkept).symm
  obtain ⟨row, -, hrow⟩ := hyes hadmits
  have hmem : (⟨[]⟩ : Key) ∈ view.staged.keys := OrdMap.mem_keys.2 ⟨row, hrow⟩
  rw [hstaged] at hmem
  cases hmem

end Plan

end LiveQuery
