import LiveQuery.Proofs.Engine.Keys
import LiveQuery.Proofs.View.Staging

/-!
# How engines fail

A load or a batch fails at the conditions of a feed, or at the view of a body. So it fails with
allowed errors only if these do, in every engine on the way; and it maintains what the upkeep of
each view maintains, also when it fails.

In every engine the tuples of the views are in groups. The groups that were made for earlier feeds
and views are right for later ones as well: a body without subqueries evaluates to the same over all
inputs, and the view of any other body starts from an empty one each time.

**Invariant.** `Engine.Settled`, of every engine (`Engine.Reached.settled`).

**Results.** `Engine.Guards.safe_load` and `Engine.Guards.safe_apply`; `Engine.Settled.safe_start`
and `Engine.Settled.safe_updateView` for single views.
-/

namespace LiveQuery

namespace Engine

variable {F : EvalError → Prop} {e : Engine}

/-! ## Feeds -/

theorem provided_meets {ev : Evaluator} {frames : List Frame} {conds : List Expr}
    (hconds : ∀ cond ∈ conds, ev.Provides F frames cond.subterms) :
    Provided F (meets ev frames conds) := by
  induction conds with
  | nil => exact .ok _
  | cons cond rest ih =>
      obtain ⟨hcond, hrest⟩ := List.forall_mem_cons.1 hconds
      refine (hcond.provided_holds (List.Subset.refl _)).bind fun kept _ => ?_
      split
      · exact ih hrest
      · exact .ok _

theorem provided_passing {feed : Feed} (hfeed : ∀ row, Provided F (e.passes feed row))
    (rows : List (Key × Row)) : Provided F (e.passing feed rows) := by
  induction rows with
  | nil => exact .ok _
  | cons entry rest ih => exact (hfeed entry.2).bind fun _ _ => ih.bind fun _ _ => .ok _

theorem provided_loadAll (contents : CollectionId → Rows) {feeds : List (SourceId × Feed)}
    (hfeeds : ∀ entry ∈ feeds, ∀ row, Provided F (e.passes entry.2 row)) :
    Provided F (e.loadAll contents feeds) := by
  induction feeds with
  | nil => exact .ok _
  | cons entry rest ih =>
      obtain ⟨hfeed, hrest⟩ := List.forall_mem_cons.1 hfeeds
      exact (provided_passing hfeed _).bind fun _ _ => (ih hrest).bind fun _ _ => .ok _

theorem provided_feedWrites {feed : Feed} (hfeed : ∀ row, Provided F (e.passes feed row))
    (batch : List Change) : Provided F (e.feedWrites feed batch) := by
  induction batch with
  | nil => exact .ok _
  | cons change rest ih =>
      unfold feedWrites
      split
      · exact (hfeed change.row).bind fun _ _ => ih.bind fun _ _ => .ok _
      · exact ih.bind fun _ _ => .ok _

theorem provided_writeFeeds (collection : CollectionId) (batch : List Change)
    {feeds : List (SourceId × Feed)}
    (hfeeds : ∀ entry ∈ feeds, ∀ row, Provided F (e.passes entry.2 row)) :
    Provided F (e.writeFeeds collection batch feeds) := by
  induction feeds with
  | nil => exact .ok _
  | cons entry rest ih =>
      obtain ⟨hfeed, hrest⟩ := List.forall_mem_cons.1 hfeeds
      unfold writeFeeds
      split
      · exact (provided_feedWrites hfeed batch).bind fun _ _ => (ih hrest).bind fun _ _ => .ok _
      · exact (ih hrest).bind fun _ _ => .ok _

/-! ## Bodies within others -/

/-- A body that is evaluated within others has a new view. -/
theorem provided_viewWithin {inputs : Inputs} {body : BodyId} {outer : List Frame}
    (fails : (e.blueprint body).Evaluates F { plan := e.plan, policy := e.policy, inputs } outer) :
    Provided F (e.viewWithin inputs body outer) := by
  unfold viewWithin
  dsimp only
  split
  · exact .ok _
  next error _ hrun => exact .error ((Blueprint.safe_rederive_empty fails).failure hrun)

theorem provided_rows (ordinary : ∀ error : EvalError, error.Ordinary → F error) {inputs : Inputs}
    {source : Source} (outer : List Frame)
    (hview : ∀ sub, source.origin = .query sub → ∀ outer,
      Provided F (e.viewWithin inputs sub outer)) :
    Provided F ((e.inputsStep inputs).rows source outer) := by
  unfold inputsStep
  dsimp only
  split
  · exact .ok _
  next sub horigin =>
    split
    · exact .ok _
    · exact .error (ordinary _ trivial)
    · exact (hview sub horigin _).map _

theorem provided_subquery {inputs : Inputs} {sub : BodyId} {outer : List Frame}
    (hview : Provided F (e.viewWithin inputs sub outer)) :
    Provided F ((e.inputsStep inputs).subquery sub outer) := by
  unfold inputsStep
  dsimp only
  split
  · exact .ok _
  · exact hview.bind fun _ _ => .ok _

/-! ## Operations -/

/-- What the upkeep of each view maintains, failing with allowed errors only, starting views
does. -/
theorem safe_startViews {P : Engine → Prop}
    (started : ∀ e id view, P e → e.views.get? id = some view →
      Safe (fun view => P (e.setView id view)) F ((e.blueprint id).rederive e.evaluator [])
        (e.blueprint id).emptyView)
    (ids : List BodyId) {e : Engine} (he : P e) : Safe P F (startViews ids) e := by
  induction ids generalizing e with
  | nil => exact .pure he _
  | cons id rest ih =>
      cases hview : e.views.get? id with
      | none => exact .of_eq (by simp only [startViews_cons, hview]) (ih he)
      | some view =>
          have hsafe := started e id view he hview
          cases hrun : (e.blueprint id).rederive e.evaluator [] (e.blueprint id).emptyView with
          | error error after =>
              refine .of_eq (y := throw error) ?_ (.throw he (hsafe.failure hrun))
              simp only [startViews_cons, hview, hrun]
              rfl
          | ok changes after =>
              refine .of_eq ?_ (ih (hsafe.of_ok hrun))
              simp only [startViews_cons, hview, hrun]

theorem safe_updateViews {P : Engine → Prop}
    (updated : ∀ e changed id view, P e → e.views.get? id = some view →
      Safe (fun view => P (e.setView id view)) F (e.updateView changed id) view)
    (ids : List BodyId) (changed : Changed) (output : List Change) {e : Engine} (he : P e) :
    Safe P F (updateViews changed output ids) e := by
  induction ids generalizing changed output e with
  | nil => exact .pure he _
  | cons id rest ih =>
      cases hview : e.views.get? id with
      | none => exact .of_eq (by simp only [updateViews_cons, hview]) (ih changed output he)
      | some view =>
          have hsafe := updated e changed id view he hview
          cases hrun : e.updateView changed id view with
          | error error after =>
              refine .of_eq (y := throw error) ?_ (.throw (hsafe.of_error hrun) (hsafe.failure hrun))
              simp only [updateViews_cons, hview, hrun]
              rfl
          | ok changes after =>
              have hset := hsafe.of_ok hrun
              by_cases hid : id = e.query
              · refine .of_eq ?_ (ih changed changes hset)
                simp only [updateViews_cons, hview, hrun, if_pos hid]
              · by_cases hempty : changes.isEmpty = true
                · refine .of_eq ?_ (ih changed output hset)
                  simp only [updateViews_cons, hview, hrun, if_neg hid, if_pos hempty]
                · let bodies := (id, changes.map Change.key) :: changed.bodies
                  refine .of_eq ?_ (ih { changed with bodies } output hset)
                  simp only [updateViews_cons, hview, hrun, if_neg hid, if_neg hempty, bodies]

/-- A load maintains what the engine has with the loaded feeds. -/
theorem safe_load_of {P : Engine → Prop}
    (started : ∀ e id view, P e → e.views.get? id = some view →
      Safe (fun view => P (e.setView id view)) F ((e.blueprint id).rederive e.evaluator [])
        (e.blueprint id).emptyView)
    {e : Engine} (he : P e) (contents : CollectionId → Rows)
    (loaded : Provided F (e.loadAll contents e.feeds.entries))
    (fed : ∀ feeds, e.loadAll contents e.feeds.entries = .ok feeds →
      P (e.setFeeds (.ofList feeds))) : Safe P F (load contents) e := by
  cases hload : e.loadAll contents e.feeds.entries with
  | error error =>
      refine .of_eq (y := throw error) ?_ (.throw he (loaded error hload))
      simp only [load_eq, hload]
      rfl
  | ok feeds =>
      refine .of_eq ?_ (safe_startViews started (e.graph.selections.map Prod.snd) (fed feeds hload))
      simp only [load_eq, hload]

/-- A batch maintains what the engine has with the written feeds. -/
theorem safe_apply_of {P : Engine → Prop}
    (updated : ∀ e changed id view, P e → e.views.get? id = some view →
      Safe (fun view => P (e.setView id view)) F (e.updateView changed id) view)
    {e : Engine} (he : P e) (collection : CollectionId) (batch : List Change)
    (written : Provided F (e.writeFeeds collection batch e.feeds.entries))
    (fed : ∀ written, e.writeFeeds collection batch e.feeds.entries = .ok written →
      P (e.setWritten written)) : Safe P F (apply collection batch) e := by
  cases hwrite : e.writeFeeds collection batch e.feeds.entries with
  | error error =>
      refine .of_eq (y := throw error) ?_ (.throw he (written error hwrite))
      simp only [apply_eq, hwrite]
      rfl
  | ok written =>
      have hset := fed written hwrite
      by_cases hempty : (touchedFeeds written).isEmpty = true
      · refine .of_eq (y := pure []) ?_ (.pure hset _)
        simp only [apply_eq, hwrite, if_pos hempty]
        rfl
      · let touched := touchedFeeds written
        let bodies := e.affectedBodies (touched.map fun entry => entry.2.1.node)
        refine .of_eq ?_ (safe_updateViews updated bodies
          { sources := touched.map fun entry => (entry.1, entry.2.2) } [] hset)
        simp only [apply_eq, hwrite, if_neg hempty, touched, bodies]

/-- A property of engines that the upkeep of each view maintains, failing with allowed errors only,
and that lets the conditions of feeds fail with such errors only. -/
structure Guards (P : Engine → Prop) (F : EvalError → Prop) : Prop where
  passes : ∀ e, P e → ∀ entry ∈ e.feeds.entries, ∀ row, Provided F (e.passes entry.2 row)
  fed : ∀ e feeds, P e → feeds.map cleared = e.layout → P (e.setFeeds (.ofList feeds))
  started : ∀ e id view, P e → e.views.get? id = some view →
    Safe (fun view => P (e.setView id view)) F ((e.blueprint id).rederive e.evaluator [])
      (e.blueprint id).emptyView
  updated : ∀ e changed id view, P e → e.views.get? id = some view →
    Safe (fun view => P (e.setView id view)) F (e.updateView changed id) view

namespace Guards

variable {P : Engine → Prop} (h : Guards P F)

include h

theorem safe_load (contents : CollectionId → Rows) (he : P e) : Safe P F (load contents) e :=
  safe_load_of h.started he contents (provided_loadAll contents (h.passes e he))
    fun feeds hload => h.fed e feeds he (cleared_loadAll hload)

theorem safe_apply (collection : CollectionId) (batch : List Change) (he : P e) :
    Safe P F (apply collection batch) e :=
  safe_apply_of h.updated he collection batch
    (provided_writeFeeds collection batch (h.passes e he))
    fun _ hwrite => h.fed e _ he (cleared_writeFeeds hwrite)

/-- What holds of an engine when it is made, and is maintained, holds of it whenever it is
reached. -/
theorem of_reached {plan : Plan} {query : BodyId} {policy : FieldPolicy}
    (hreached : Reached plan query policy e) (made : ∀ e, ofQuery plan query policy = .ok e → P e) :
    P e := by
  induction hreached with
  | made hmade => exact made _ hmade
  | loaded contents _ ih => exact (h.safe_load contents ih).after
  | applied collection batch _ ih => exact (h.safe_apply collection batch ih).after

end Guards

/-! ## The groups of views -/

/-- An engine whose views have their tuples in groups, with the right states; that of a nested body
need not, as it starts from an empty one each time. -/
structure Settled (e : Engine) : Prop where
  built : e.plan.graph e.query = .ok e.graph
  kept : e.Kept
  views : ∀ id view, e.views.get? id = some view → (e.blueprint id).nested = false →
    view.Grouped (e.blueprint id) e.evaluator []

namespace Settled

variable (h : e.Settled)

include h

/-- What is grouped over the inputs of an engine is so over all inputs. -/
theorem grouped_over {id : BodyId} {view : View}
    (hview : (e.blueprint id).nested = false → view.Grouped (e.blueprint id) e.evaluator [])
    (flat : (e.blueprint id).nested = false) (inputs : Inputs) :
    view.Grouped (e.blueprint id) { plan := e.plan, policy := e.policy, inputs } [] :=
  (hview flat).of_sees (Plan.sees_of_flat h.built flat (.inl rfl) _ _)

theorem setView {id : BodyId} {view : View}
    (reached : (e.blueprint id).Reached view)
    (hview : view.Grouped (e.blueprint id) e.evaluator []) : (e.setView id view).Settled where
  built := h.built
  kept := h.kept.setView reached
  views id' view' hget flat := by
    change (e.views.insert id view).get? id' = some view' at hget
    rw [OrdMap.get?_insert_eq] at hget
    split at hget
    next hid =>
      cases hget
      cases hid
      exact h.grouped_over (fun _ => hview) flat _
    · exact h.grouped_over (h.views id' view' hget) flat _

theorem setFeeds (feeds : OrdMap SourceId Feed) : (e.setFeeds feeds).Settled where
  built := h.built
  kept := h.kept
  views id view hget flat := h.grouped_over (h.views id view hget) flat _

/-- The view of a body is made anew. -/
theorem safe_start {id : BodyId} (fails : (e.blueprint id).Evaluates F e.evaluator []) :
    Safe (fun view => (e.setView id view).Settled) F ((e.blueprint id).rederive e.evaluator [])
      (e.blueprint id).emptyView := by
  have hstart := Blueprint.safe_rederive_empty fails
  exact ⟨h.setView (.rederive .empty _ []) hstart.after, hstart.failure⟩

/-- The view of a body is brought up to date. -/
theorem safe_updateView (changed : Changed) {id : BodyId} {view : View}
    (hview : e.views.get? id = some view)
    (fails : (e.blueprint id).Evaluates F e.evaluator []) :
    Safe (fun after => (e.setView id after).Settled) F (e.updateView changed id) view := by
  have hbefore := h.views id view hview
  have hgrouped : Safe (fun after => after.Grouped (e.blueprint id) e.evaluator []) F
      (e.updateView changed id) view := by
    unfold updateView
    dsimp only
    split
    next incremental =>
      have hflat := hbefore (Plan.flat_of_incremental incremental)
      split
      · exact .pure hflat _
      · exact ((Blueprint.ends_follow hflat (h.kept id view hview).indexed
          (Plan.inner_of_incremental incremental) fails _).mono fun _ _ hafter => hafter.1).safe
    · exact ((Blueprint.ends_rederive hbefore fails).mono fun _ _ hafter => hafter.1).safe
  exact ⟨h.setView (reached_updateView changed (h.kept id view hview)) hgrouped.after,
    hgrouped.failure⟩

end Settled

variable {plan : Plan} {query : BodyId} {policy : FieldPolicy}

theorem settled_ofQuery (h : ofQuery plan query policy = .ok e) : e.Settled := by
  have hkept := kept_ofQuery h
  obtain ⟨graph, accepted, hmade⟩ := Except.bind_eq_ok.1 h
  obtain rfl := Except.pure_eq_ok.1 hmade
  refine ⟨accepted, hkept, fun id view hview _ => ?_⟩
  obtain ⟨id', -, heq⟩ := List.mem_map.1 (OrdMap.mem_of_get?_ofList hview)
  obtain ⟨rfl, rfl⟩ := Prod.mk.inj heq
  exact .emptyView _ _ []

/-- Every engine has its tuples in groups, whatever failed on the way. -/
theorem Reached.settled (h : Reached plan query policy e) : e.Settled := by
  have hguards : Guards Settled fun _ => True := by
    refine ⟨fun _ _ _ _ _ _ _ => trivial, fun _ _ h _ => h.setFeeds _, fun e id view h _ => ?_,
      fun e changed id view h hview => ?_⟩
    · exact h.safe_start (.of_any _ _ [])
    · exact h.safe_updateView changed hview (.of_any _ _ [])
  exact hguards.of_reached h fun _ => settled_ofQuery

end Engine

end LiveQuery
