import LiveQuery.Proofs.Graph.Root
import LiveQuery.Proofs.View.Output

/-!
# The output of engines

An engine brings the views of inner bodies up to date before that of its query. What it
shows is the view of the query alone, which is the last to be brought up to date and shows
its new rows at the very end. So an engine whose output has changed has not failed, and the
changes it tells are those of that one view.

**Results.** `Engine.apply_exact`: a batch that is applied tells exactly what it changes of
the output. `Engine.failure_keeps_output`: a batch or a load that fails changes nothing of
the output, and a batch that fails at the filter of a feed changes nothing at all.
-/

namespace LiveQuery

namespace Engine

/-! ## What engines keep -/

/-- What an engine is made for: its query, and how it is evaluated. -/
def settings (e : Engine) : Plan × Graph × BodyId × FieldPolicy :=
  (e.plan, e.graph, e.query, e.policy)

/-- The engine with other feeds. -/
def setFeeds (e : Engine) (feeds : OrdMap SourceId Feed) : Engine :=
  { e with feeds }

theorem keeps_ofExcept {α γ : Type} {part : Engine → γ} (x : Except EvalError α) :
    Keeps part (ofExcept x) := by
  cases x with
  | error error => exact Keeps.throw error
  | ok a => exact Keeps.pure a

theorem ofExcept_eq_ok {α : Type} {x : Except EvalError α} {a : α} {e e' : Engine} :
    ofExcept x e = .ok a e' ↔ x = .ok a ∧ e' = e := by
  cases x with
  | error error => exact ⟨fun h => (nomatch h), fun ⟨h, _⟩ => (nomatch h)⟩
  | ok b =>
      constructor
      · intro h
        cases h
        exact ⟨rfl, rfl⟩
      · rintro ⟨h, rfl⟩
        cases h
        rfl

/-! ## Starting views, one after another -/

theorem startViews_cons (id : BodyId) (rest : List BodyId) (e : Engine) :
    startViews (id :: rest) e
      = match e.views.get? id with
        | none => startViews rest e
        | some _ =>
            match (e.blueprint id).rederive e.evaluator [] (e.blueprint id).emptyView with
            | .error error _ => .error error e
            | .ok _ view => startViews rest (e.setView id view) := by
  rw [startViews]
  change EStateM.bind get _ e = _
  simp only [EStateM.bind, get_run]
  cases e.views.get? id with
  | none => rfl
  | some _ =>
      cases (e.blueprint id).rederive e.evaluator [] (e.blueprint id).emptyView <;> rfl

theorem updateViews_cons (changed : Changed) (output : List Change) (id : BodyId)
    (rest : List BodyId) (e : Engine) :
    updateViews changed output (id :: rest) e
      = match e.views.get? id with
        | none => updateViews changed output rest e
        | some view =>
            match e.updateView changed id view with
            | .error error view => .error error (e.setView id view)
            | .ok changes view =>
                if id = e.query then updateViews changed changes rest (e.setView id view)
                else if changes.isEmpty then updateViews changed output rest (e.setView id view)
                else updateViews
                  { changed with bodies := (id, changes.map Change.key) :: changed.bodies }
                  output rest (e.setView id view) := by
  rw [updateViews]
  change EStateM.bind get _ e = _
  simp only [EStateM.bind, get_run]
  cases e.views.get? id with
  | none => rfl
  | some view =>
      cases hupdate : e.updateView changed id view with
      | error error view =>
          simp only [hupdate]
          rfl
      | ok changes view =>
          simp only [hupdate]
          by_cases hid : id = e.query
          · simp only [hid, if_true]
            rfl
          · by_cases hempty : changes.isEmpty = true
            · simp only [hid, hempty, if_false, if_true]
              rfl
            · simp only [hid, hempty, if_false]
              rfl

/-- What a step on the view of each body keeps, starting views keeps. -/
theorem keeps_startViews {γ : Type} {part : Engine → γ}
    (hset : ∀ e id view, part (setView e id view) = part e) (ids : List BodyId) :
    Keeps part (startViews ids) := by
  induction ids with
  | nil => exact Keeps.pure _
  | cons id rest ih =>
      intro e
      rw [startViews_cons]
      split
      · exact ih e
      · split
        · rfl
        · exact (ih _).trans (hset e id _)

theorem keeps_updateViews {γ : Type} {part : Engine → γ}
    (hset : ∀ e id view, part (setView e id view) = part e) (changed : Changed)
    (output : List Change) (ids : List BodyId) : Keeps part (updateViews changed output ids) := by
  induction ids generalizing changed output with
  | nil => exact Keeps.pure _
  | cons id rest ih =>
      intro e
      rw [updateViews_cons]
      split
      · exact ih _ _ e
      · split
        · exact hset e id _
        · split
          · exact (ih _ _ _).trans (hset e id _)
          · split <;> exact (ih _ _ _).trans (hset e id _)

theorem load_eq (contents : CollectionId → Rows) (e : Engine) :
    load contents e
      = match e.loadAll contents e.feeds.entries with
        | .error error => .error error e
        | .ok feeds =>
            startViews (e.graph.selections.map Prod.snd) (e.setFeeds (OrdMap.ofList feeds)) := by
  unfold load
  change EStateM.bind get _ e = _
  simp only [EStateM.bind, get_run]
  change EStateM.bind (ofExcept _) _ e = _
  simp only [EStateM.bind]
  cases e.loadAll contents e.feeds.entries <;> rfl

/-- The feeds that a batch has changed. -/
def touchedFeeds (written : List (SourceId × Feed × List Key)) :
    List (SourceId × Feed × List Key) :=
  written.filter fun entry => !entry.2.2.isEmpty

/-- The engine with written feeds. -/
def setWritten (e : Engine) (written : List (SourceId × Feed × List Key)) : Engine :=
  e.setFeeds (OrdMap.ofList (written.map fun entry => (entry.1, entry.2.1)))

theorem apply_eq (collection : CollectionId) (batch : List Change) (e : Engine) :
    apply collection batch e
      = match e.writeFeeds collection batch e.feeds.entries with
        | .error error => .error error e
        | .ok written =>
            if (touchedFeeds written).isEmpty then .ok [] (e.setWritten written)
            else
              updateViews
                { sources := (touchedFeeds written).map fun entry => (entry.1, entry.2.2) } []
                (e.affectedBodies ((touchedFeeds written).map fun entry => entry.2.1.node))
                (e.setWritten written) := by
  unfold apply
  change EStateM.bind get _ e = _
  simp only [EStateM.bind, get_run]
  change EStateM.bind (ofExcept _) _ e = _
  simp only [EStateM.bind]
  cases e.writeFeeds collection batch e.feeds.entries with
  | error error => rfl
  | ok written =>
      change (ite ((touchedFeeds written).isEmpty = true) _ _ : Running (List Change)) _ = _
      by_cases htouched : (touchedFeeds written).isEmpty = true
      · simp only [htouched, if_true]
        rfl
      · simp only [htouched]
        rfl

theorem keepsSettings_load (contents : CollectionId → Rows) :
    Keeps settings (load contents) := by
  intro e
  rw [load_eq]
  split
  · rfl
  · exact keeps_startViews (fun _ _ _ => rfl) _ _

theorem keepsSettings_apply (collection : CollectionId) (batch : List Change) :
    Keeps settings (apply collection batch) := by
  intro e
  rw [apply_eq]
  split
  · rfl
  · split
    · rfl
    · exact keeps_updateViews (fun _ _ _ => rfl) _ _ _ _

/-! ## The view of the query -/

/-- An engine with the graph of its query, whose output lists what its view shows. -/
structure Regular (e : Engine) : Prop where
  built : e.plan.graph e.query = .ok e.graph
  lists : ∀ view, e.views.get? e.query = some view → view.ListsVisible (e.blueprint e.query)

theorem snapshot_of_some {e : Engine} {view : View} (h : e.views.get? e.query = some view) :
    e.snapshot = view.output (e.blueprint e.query) := by
  unfold snapshot
  rw [h]

theorem get?_setView_of_ne {e : Engine} {id body : BodyId} (h : body ≠ id) (view : View) :
    (e.setView id view).views.get? body = e.views.get? body := by
  change (e.views.insert id view).get? body = _
  rw [OrdMap.get?_insert_eq, if_neg h]

theorem snapshot_setView_of_ne {e : Engine} {id : BodyId} (view : View) (h : id ≠ e.query) :
    (e.setView id view).snapshot = e.snapshot := by
  have hget := get?_setView_of_ne (e := e) h.symm view
  have hquery : (e.setView id view).query = e.query := rfl
  unfold snapshot
  rw [hquery, hget]
  rfl

theorem get?_setView_self (e : Engine) (id : BodyId) (view : View) :
    (e.setView id view).views.get? id = some view := by
  change (e.views.insert id view).get? id = _
  rw [OrdMap.get?_insert_eq, if_pos rfl]

/-- What is shown of the query's view is what is put out. -/
theorem snapshot_setView_of_shown {e : Engine} {id : BodyId} {view after : View}
    (hview : e.views.get? id = some view) (hshown : after.shown = view.shown) :
    (e.setView id after).snapshot = e.snapshot := by
  by_cases hid : id = e.query
  · subst hid
    rw [snapshot_of_some (e.get?_setView_self _ after), snapshot_of_some hview]
    exact View.output_eq_of_shown hshown
  · exact snapshot_setView_of_ne after hid

namespace Regular

variable {e : Engine}

theorem setView (h : e.Regular) {id : BodyId} {view : View}
    (hview : id = e.query → view.ListsVisible (e.blueprint id)) : (e.setView id view).Regular where
  built := h.built
  lists view' hview' := by
    change (e.views.insert id view).get? e.query = some view' at hview'
    rw [OrdMap.get?_insert_eq] at hview'
    split at hview'
    next hid =>
      cases hview'
      exact hid ▸ hview hid.symm
    · exact h.lists view' hview'

theorem keyed_snapshot (h : e.Regular) {view : View} (hview : e.views.get? e.query = some view) :
    keyed e.snapshot = view.visible := by
  rw [snapshot_of_some hview]
  exact (h.lists view hview).keyed_eq

/-- The output lists each key once. -/
theorem nodup_snapshot (h : e.Regular) : (e.snapshot.map Prod.fst).Nodup := by
  cases hview : e.views.get? e.query with
  | none =>
      unfold snapshot
      rw [hview]
      exact .nil
  | some view =>
      rw [snapshot_of_some hview]
      exact (h.lists view hview).nodup

theorem rooted (h : e.Regular) : e.graph.Rooted e.query :=
  rooted_of_graph h.built

end Regular

/-! ## Views of bodies in order -/

/-- A property that an engine keeps when its feeds are filled and its views are brought up to
date. -/
structure Lasting (P : Engine → Prop) : Prop where
  fed : ∀ e feeds, P e → P (e.setFeeds feeds)
  started : ∀ e id changes view, P e →
    (e.blueprint id).rederive e.evaluator [] (e.blueprint id).emptyView = .ok changes view →
      P (e.setView id view)
  updated : ∀ e changed id view, P e → e.views.get? id = some view →
    P (e.setView id (stateAfter (e.updateView changed id view)))

namespace Lasting

variable {P : Engine → Prop} {e : Engine}

theorem startViews (h : Lasting P) (he : P e) (ids : List BodyId) :
    P (stateAfter (startViews ids e)) := by
  induction ids generalizing e with
  | nil => exact he
  | cons id rest ih =>
      rw [startViews_cons]
      split
      · exact ih he
      · split
        · exact he
        next changes view hrun => exact ih (h.started e id changes view he hrun)

theorem updateViews (h : Lasting P) (he : P e) (changed : Changed) (output : List Change)
    (ids : List BodyId) : P (stateAfter (updateViews changed output ids e)) := by
  induction ids generalizing changed output e with
  | nil => exact he
  | cons id rest ih =>
      rw [updateViews_cons]
      split
      · exact ih he changed output
      next view hview =>
        have hset := h.updated e changed id view he hview
        split
        next hrun => rwa [hrun] at hset
        next hrun =>
          rw [hrun] at hset
          split
          · exact ih hset _ _
          · split <;> exact ih hset _ _

theorem load (h : Lasting P) (he : P e) (contents : CollectionId → Rows) :
    P (stateAfter (load contents e)) := by
  rw [load_eq]
  split
  · exact he
  · exact h.startViews (h.fed e _ he) _

theorem apply (h : Lasting P) (he : P e) (collection : CollectionId) (batch : List Change) :
    P (stateAfter (apply collection batch e)) := by
  rw [apply_eq]
  split
  · exact he
  · split
    · exact h.fed e _ he
    · exact h.updateViews (h.fed e _ he) _ _ _

end Lasting

/-- The feeds of an engine have no part in its output. -/
theorem Regular.setFeeds {e : Engine} (h : e.Regular) (feeds : OrdMap SourceId Feed) :
    (e.setFeeds feeds).Regular :=
  ⟨h.built, h.lists⟩

theorem publishesLast_updateView (e : Engine) (changed : Changed) (id : BodyId) :
    (e.blueprint id).PublishesLast (e.updateView changed id) := by
  unfold updateView
  split
  · dsimp only
    split
    · exact Blueprint.PublishesLast.pure_nil
    · exact (e.blueprint id).publishesLast_follow e.evaluator _
  · exact (e.blueprint id).publishesLast_rederive e.evaluator []

/-- An upkeep that fails shows nothing new, and one that succeeds lists what it shows. -/
theorem lasting_regular : Lasting Regular where
  fed _ feeds h := h.setFeeds feeds
  started e id _ _ h hrun := h.setView fun _ =>
    ((e.blueprint id).publishesLast_rederive e.evaluator []).lists hrun
      (View.listsVisible_emptyView _)
  updated e changed id view h hview := by
    have hpublishes := e.publishesLast_updateView changed id
    refine h.setView fun hid => ?_
    have hlists : view.ListsVisible (e.blueprint id) := by
      subst hid
      exact h.lists view hview
    cases hrun : e.updateView changed id view with
    | error error after => exact hlists.of_shown (hpublishes.onFailure hrun)
    | ok changes after => exact hpublishes.lists hrun hlists

/-- The view of the query is started last, so nothing fails after it. -/
theorem startViews_failure {e e' : Engine} {ids : List BodyId} {error : EvalError}
    (hlast : ids.Pairwise fun id _ => id ≠ e.query) (h : startViews ids e = .error error e') :
    e'.snapshot = e.snapshot := by
  induction ids generalizing e with
  | nil => cases h
  | cons id rest ih =>
      obtain ⟨hid, hrest⟩ := List.pairwise_cons.1 hlast
      rw [startViews_cons] at h
      split at h
      · exact ih hrest h
      · split at h
        · cases h
          rfl
        next view _ =>
          cases rest with
          | nil => cases h
          | cons next rest =>
              exact (ih (e := e.setView id view) hrest h).trans
                (snapshot_setView_of_ne view (hid next List.mem_cons_self))

theorem updateViews_failure {e e' : Engine} {changed : Changed} {output : List Change}
    {ids : List BodyId} {error : EvalError} (hlast : ids.Pairwise fun id _ => id ≠ e.query)
    (h : updateViews changed output ids e = .error error e') : e'.snapshot = e.snapshot := by
  induction ids generalizing changed output e with
  | nil => cases h
  | cons id rest ih =>
      obtain ⟨hid, hrest⟩ := List.pairwise_cons.1 hlast
      rw [updateViews_cons] at h
      split at h
      · exact ih hrest h
      next view hview =>
        split at h
        next error' after hrun =>
          cases h
          exact snapshot_setView_of_shown hview
            ((e.publishesLast_updateView changed id).onFailure hrun)
        next changes after hrun =>
          cases rest with
          | nil =>
              split at h
              · cases h
              · split at h <;> cases h
          | cons next rest =>
              have hset := snapshot_setView_of_ne after (hid next List.mem_cons_self)
              rw [if_neg (hid next List.mem_cons_self)] at h
              split at h
              · exact (ih (e := e.setView id after) hrest h).trans hset
              · exact (ih (e := e.setView id after) hrest h).trans hset

/-- What is told is what the view of the query, the last one, tells. -/
theorem updateViews_exact {e e' : Engine} {changed : Changed} {changes : List Change}
    {ids : List BodyId} (hregular : e.Regular) (hlast : ids.Pairwise fun id _ => id ≠ e.query)
    (h : updateViews changed [] ids e = .ok changes e') :
    Change.Exact (keyed e.snapshot) (keyed e'.snapshot) changes := by
  induction ids generalizing changed e with
  | nil =>
      cases h
      exact .refl _
  | cons id rest ih =>
      obtain ⟨hid, hrest⟩ := List.pairwise_cons.1 hlast
      rw [updateViews_cons] at h
      split at h
      · exact ih hregular hrest h
      next view hview =>
        split at h
        · cases h
        next told after hrun =>
          have hlists : id = e.query → view.ListsVisible (e.blueprint id) := by
            rintro rfl
            exact hregular.lists view hview
          have hset : (e.setView id after).Regular := hregular.setView fun hid =>
            (e.publishesLast_updateView changed id).lists hrun (hlists hid)
          by_cases hquery : id = e.query
          · have hnil : rest = [] := List.eq_nil_iff_forall_not_mem.2 fun next hnext =>
              hid next hnext hquery
            subst hquery hnil
            rw [if_pos rfl] at h
            cases h
            rw [hregular.keyed_snapshot hview, hset.keyed_snapshot (e.get?_setView_self _ after)]
            exact (e.publishesLast_updateView changed e.query).exact hrun
          · rw [if_neg hquery] at h
            rw [← snapshot_setView_of_ne after hquery]
            split at h
            · exact ih hset hrest h
            · exact ih hset hrest h

/-! ## Operations on engines -/

theorem bodies_selections (g : Graph) :
    g.selections.map Prod.snd = g.order.filterMap g.bodyOf? := by
  unfold Graph.selections
  rw [List.map_filterMap]
  refine List.filterMap_congr fun k _ => ?_
  unfold Graph.bodyOf?
  cases (g.node k).kind <;> rfl

theorem affectedBodies_last {e : Engine} (h : e.Regular) (changed : List NodeId) :
    (e.affectedBodies changed).Pairwise fun id _ => id ≠ e.query :=
  h.rooted.query_last List.filter_sublist

theorem load_failure {e e' : Engine} {contents : CollectionId → Rows} {error : EvalError}
    (hregular : e.Regular) (h : load contents e = .error error e') : e'.snapshot = e.snapshot := by
  rw [load_eq] at h
  split at h
  · cases h
    rfl
  next feeds _ =>
    refine startViews_failure (e := e.setFeeds (OrdMap.ofList feeds)) ?_ h
    rw [bodies_selections]
    exact hregular.rooted.query_last (List.Sublist.refl _)

theorem apply_failure {e e' : Engine} {collection : CollectionId} {batch : List Change}
    {error : EvalError} (hregular : e.Regular)
    (h : apply collection batch e = .error error e') : e'.snapshot = e.snapshot := by
  rw [apply_eq] at h
  split at h
  · cases h
    rfl
  next written _ =>
    split at h
    · cases h
    · exact updateViews_failure (e := e.setWritten written)
        (affectedBodies_last hregular _) h

theorem exact_of_apply {e e' : Engine} {collection : CollectionId} {batch changes : List Change}
    (hregular : e.Regular) (h : apply collection batch e = .ok changes e') :
    Change.Exact (keyed e.snapshot) (keyed e'.snapshot) changes := by
  rw [apply_eq] at h
  split at h
  · cases h
  next written _ =>
    split at h
    · cases h
      exact .refl _
    · exact updateViews_exact (e := e.setWritten written) (hregular.setFeeds _)
        (affectedBodies_last hregular _) h

/-! ## Filters of feeds -/

theorem feedWrites_error_iff (e : Engine) (feed : Feed) (batch : List Change) :
    (∃ error, e.feedWrites feed batch = .error error)
      ↔ ∃ change ∈ batch, change.isUpsert = true ∧
          ∃ error, e.passes feed change.row = .error error := by
  induction batch with
  | nil => simp [feedWrites, pure, Except.pure]
  | cons change rest ih =>
      rw [List.exists_mem_cons_iff, ← ih, feedWrites]
      cases hkind : change.isUpsert with
      | false => cases e.feedWrites feed rest <;> simp [bind, Except.bind, pure, Except.pure]
      | true =>
          cases e.passes feed change.row <;> cases e.feedWrites feed rest <;>
            simp [bind, Except.bind, pure, Except.pure]

/-- A batch fails before anything is written when a row it brings fails at the filters of a
feed of its collection. -/
theorem writeFeeds_error_iff (e : Engine) (collection : CollectionId) (batch : List Change)
    (feeds : List (SourceId × Feed)) :
    (∃ error, e.writeFeeds collection batch feeds = .error error)
      ↔ ∃ entry ∈ feeds, entry.2.collection.id = collection ∧
          ∃ change ∈ batch, change.isUpsert = true ∧
            ∃ error, e.passes entry.2 change.row = .error error := by
  induction feeds with
  | nil => simp [writeFeeds, pure, Except.pure]
  | cons entry rest ih =>
      obtain ⟨id, feed⟩ := entry
      rw [List.exists_mem_cons_iff, ← ih, ← feedWrites_error_iff, writeFeeds]
      by_cases hcollection : feed.collection.id = collection
      · cases e.feedWrites feed batch <;> cases e.writeFeeds collection batch rest <;>
          simp [hcollection, bind, Except.bind, pure, Except.pure]
      · cases e.writeFeeds collection batch rest <;>
          simp [hcollection, bind, Except.bind, pure, Except.pure]

/-! ## Engines that are reached -/

/-- The engines of a query: made with nothing in them, then loaded and brought up to date by
batches, whether that succeeds or fails. -/
inductive Reached (plan : Plan) (query : BodyId) (policy : FieldPolicy) : Engine → Prop
  | made {e : Engine} (h : ofQuery plan query policy = .ok e) : Reached plan query policy e
  | loaded {e : Engine} (contents : CollectionId → Rows) (h : Reached plan query policy e) :
      Reached plan query policy (stateAfter (load contents e))
  | applied {e : Engine} (collection : CollectionId) (batch : List Change)
      (h : Reached plan query policy e) :
      Reached plan query policy (stateAfter (apply collection batch e))

variable {plan : Plan} {query : BodyId} {policy : FieldPolicy} {e : Engine}

theorem regular_ofQuery (h : ofQuery plan query policy = .ok e) : e.Regular := by
  obtain ⟨graph, hgraph, hmade⟩ := Except.bind_eq_ok.1 h
  obtain rfl := Except.pure_eq_ok.1 hmade
  refine ⟨hgraph, fun view hview => ?_⟩
  obtain ⟨id, _, hid⟩ := List.mem_map.1 (OrdMap.mem_of_get?_ofList hview)
  obtain ⟨rfl, rfl⟩ := Prod.mk.inj hid
  exact View.listsVisible_emptyView _

/-- An engine puts nothing out before it is loaded. -/
theorem snapshot_ofQuery (h : ofQuery plan query policy = .ok e) : e.snapshot = [] := by
  obtain ⟨graph, _, hmade⟩ := Except.bind_eq_ok.1 h
  obtain rfl := Except.pure_eq_ok.1 hmade
  unfold snapshot
  split
  next view hview =>
    obtain ⟨id, _, hid⟩ := List.mem_map.1 (OrdMap.mem_of_get?_ofList hview)
    obtain ⟨rfl, rfl⟩ := Prod.mk.inj hid
    exact View.output_emptyView _
  · rfl

/-- What holds of an engine when it is made, and lasts, holds of it whenever it is reached. -/
theorem Reached.of_lasting {P : Engine → Prop} (h : Reached plan query policy e) (lasting : Lasting P)
    (made : ∀ e, ofQuery plan query policy = .ok e → P e) : P e := by
  induction h with
  | made h => exact made _ h
  | loaded contents _ ih => exact lasting.load ih contents
  | applied collection batch _ ih => exact lasting.apply ih collection batch

theorem Reached.regular (h : Reached plan query policy e) : e.Regular :=
  h.of_lasting lasting_regular fun _ => regular_ofQuery

/-- The engine of a query that is loaded, of which something is known. -/
theorem exists_loaded {α : Type} (contents : CollectionId → Rows) {f : Engine → α} {a : α}
    (h : (ofQuery plan query policy).toOption.map (fun made => f (stateAfter (load contents made)))
      = some a) : ∃ e, Reached plan query policy e ∧ f e = a := by
  obtain ⟨made, hmade, hloaded⟩ := Except.exists_of_toOption h
  exact ⟨_, .loaded contents (.made hmade), hloaded⟩

/-- A query over one collection, as it is written with the alias of its rows. -/
def queryOver (ref : CollectionRef) (write : Proxy → Builder Unit) : Draft :=
  ((do write (← Builder.bind ref.name (.collection ref) none) : Builder Unit).run
    (Plan.openQuery {})).2

/-- What a batch tells is what it changes of the output: replayed on the rows before it
gives those after, and it names each differing row once and nothing else. -/
theorem apply_exact {e' : Engine} {collection : CollectionId} {batch changes : List Change}
    (h : Reached plan query policy e) (happly : apply collection batch e = .ok changes e') :
    Change.Exact (keyed e.snapshot) (keyed e'.snapshot) changes ∧
      Change.replay changes (keyed e.snapshot) = keyed e'.snapshot := by
  have hexact := exact_of_apply h.regular happly
  exact ⟨hexact, hexact.replay_eq⟩

theorem apply_exact_insertion :
    ∃ e, Reached (queryOver ⟨0, "rows"⟩ fun rows => Builder.selectValue (.ref rows)).plan 0
        .undefined e ∧
      ∃ e' changes, apply 0 [⟨.insert, ⟨[.int 1]⟩, .nil⟩] e = .ok changes e' ∧ changes ≠ [] ∧
        Change.Exact (keyed e.snapshot) (keyed e'.snapshot) changes ∧
        Change.replay changes (keyed e.snapshot) = keyed e'.snapshot := by
  obtain ⟨e, hreached, e', changes, happly, hchanges⟩ :
      ∃ e, Reached (queryOver ⟨0, "rows"⟩ fun rows => Builder.selectValue (.ref rows)).plan 0
          .undefined e ∧
        ∃ e' changes, apply 0 [⟨.insert, ⟨[.int 1]⟩, .nil⟩] e = .ok changes e' ∧ changes ≠ [] :=
    ⟨_, .made rfl, _, _, rfl, by decide⟩
  exact ⟨e, hreached, e', changes, happly, hchanges, apply_exact hreached happly⟩

/-- A batch or a load that fails leaves the output alone; a batch with a row that fails at
the filters of a feed leaves everything alone. -/
theorem failure_keeps_output (h : Reached plan query policy e) :
    (∀ collection batch error e', apply collection batch e = .error error e' →
      e'.snapshot = e.snapshot) ∧
    (∀ collection batch, (∃ feed ∈ e.feeds.values, feed.collection.id = collection ∧
        ∃ change ∈ batch, change.isUpsert = true ∧
          ∃ error, e.passes feed change.row = .error error) →
      ∃ error, apply collection batch e = .error error e) ∧
    (∀ contents error e', load contents e = .error error e' → e'.snapshot = e.snapshot) := by
  refine ⟨fun _ _ _ _ => apply_failure h.regular, ?_, fun _ _ _ => load_failure h.regular⟩
  rintro collection batch ⟨feed, hfeed, hfails⟩
  obtain ⟨entry, hentry, rfl⟩ := List.mem_map.1 hfeed
  obtain ⟨error, herror⟩ :=
    (e.writeFeeds_error_iff collection batch e.feeds.entries).2 ⟨entry, hentry, hfails⟩
  exact ⟨error, by rw [apply_eq, herror]⟩

/-- A row without the field that is put out fails after its feed is written. -/
theorem failure_keeps_output_missing_field :
    ∃ e, Reached (queryOver ⟨0, "rows"⟩ fun rows =>
        Builder.selectValue (.ref ⟨rows.body, rows.path.get "x"⟩)).plan 0 .strict e ∧
      ∃ error e', apply 0 [⟨.insert, ⟨[.int 1]⟩, .nil⟩] e = .error error e' ∧
        e'.feeds.values.map (·.rows.keys) ≠ e.feeds.values.map (·.rows.keys) ∧
        e'.snapshot = e.snapshot := by
  obtain ⟨e, hreached, error, e', happly, hfeeds⟩ :
      ∃ e, Reached (queryOver ⟨0, "rows"⟩ fun rows =>
          Builder.selectValue (.ref ⟨rows.body, rows.path.get "x"⟩)).plan 0 .strict e ∧
        ∃ error e', apply 0 [⟨.insert, ⟨[.int 1]⟩, .nil⟩] e = .error error e' ∧
          e'.feeds.values.map (·.rows.keys) ≠ e.feeds.values.map (·.rows.keys) :=
    ⟨_, .made rfl, _, _, rfl, by decide⟩
  exact ⟨e, hreached, error, e', happly, hfeeds,
    (failure_keeps_output hreached).1 _ _ _ _ happly⟩

end Engine

end LiveQuery
