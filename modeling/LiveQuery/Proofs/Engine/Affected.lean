import LiveQuery.Proofs.Engine.Provision
import LiveQuery.Proofs.Engine.Redelivery
import LiveQuery.Proofs.Graph.Affected
import LiveQuery.Proofs.Graph.Image

/-!
# Which views a batch reaches

When a batch has changed feeds, the nodes of their sources count as changed, and views are brought
up to date for the bodies that are computed from these. A body is computed from the sources of the
bodies below it and from the bodies themselves, at any depth, so the view of a body is among these
whenever something below it has changed, and comes after all views that it reads.

**Invariants.** `Engine.Arranged`: views are those of listed bodies, and feeds have the nodes of
their sources.

**Results.** `Engine.propagation_exact`.
-/

namespace LiveQuery

namespace Plan

variable {plan : Plan} {query body sub : BodyId} {g : Graph}

/-- The node of a listed body is computed from that of each body below it. -/
theorem exists_feeding_of_reach (accepted : plan.graph query = .ok g)
    (sourcesApart : plan.SourcesApart) (exprsApart : plan.ExprsApart) {k : NodeId}
    (hk : k ∈ g.order) (hkind : (g.node k).kind = .selection body)
    (below : Relation.ReflTransGen plan.Holds body sub) :
    ∃ j ∈ g.order, (g.node j).kind = .selection sub ∧ Relation.ReflTransGen g.Feeds j k := by
  induction below with
  | refl => exact ⟨k, hk, hkind, .refl⟩
  | tail _ holds ih =>
      obtain ⟨i, hi, hkind, hreach⟩ := ih
      obtain ⟨j, hj, hfeeds⟩ :=
        exists_feeding_of_holds accepted sourcesApart exprsApart hi hkind holds
      refine ⟨j, ?_, hj, hfeeds.trans hreach⟩
      obtain ⟨before, after, horder⟩ := List.append_of_mem hi
      rw [horder]
      rcases (rooted_of_graph accepted).mem_before_of_reach horder hfeeds with rfl | hmem
      · exact List.mem_append_right _ List.mem_cons_self
      · exact List.mem_append_left _ hmem

/-- The node of a body is computed from those of its sources. -/
theorem exists_feeding_of_source (accepted : plan.graph query = .ok g)
    (sourcesApart : plan.SourcesApart) (exprsApart : plan.ExprsApart) {k : NodeId} (hk : k < g.size)
    (hkind : (g.node k).kind = .selection body) {source : Source}
    (hsource : source ∈ (plan.body body).sources) :
    ∃ j, g.nodeOf? (.source source.id) = some j ∧ g.Feeds j k := by
  obtain ⟨ids, hparts, hnodes⟩ := (depicts_of_graph accepted sourcesApart exprsApart).inputs k hk
  rw [hkind] at hparts
  cases hparts with
  | selection =>
      have hid : Identity.source source.id ∈ (plan.body body).sources.map (.source ·.id)
          ++ (plan.body body).expressions.map (.expr ·.id) :=
        List.mem_append_left _ (List.mem_map.2 ⟨source, hsource, rfl⟩)
      obtain ⟨n, hn, hidn⟩ := List.getElem_of_mem hid
      obtain ⟨hlength, hget⟩ := List.forall₂_iff_get.1 hnodes
      refine ⟨(g.node k).dependsOn.get ⟨n, hlength ▸ hn⟩, ?_, ?_⟩
      · rw [← hidn]
        exact hget n hn (hlength ▸ hn)
      · rw [Graph.Feeds, ← g.dependsOn_node]
        exact List.getElem_mem _

end Plan

namespace Engine

variable {plan : Plan} {query : BodyId} {policy : FieldPolicy} {e : Engine}

/-! ## Views and feeds in a graph -/

/-- The view of a body is there. -/
def Viewed (e : Engine) (id : BodyId) : Prop :=
  (e.views.get? id).isSome

instance (e : Engine) : DecidablePred e.Viewed := fun _ => inferInstanceAs (Decidable (_ = true))

/-- An engine has its graph from its plan, views of listed bodies only, and the feeds of sources at
their nodes. -/
structure Arranged (e : Engine) : Prop where
  built : e.plan.graph e.query = .ok e.graph
  listed : ∀ id, e.Viewed id → e.graph.Lists id
  placed : ∀ entry ∈ e.layout, entry.2.node = (e.graph.nodeOf? (.source entry.1)).getD 0

theorem viewed_setView {id : BodyId} (hid : e.Viewed id) (view : View) (sub : BodyId) :
    (e.setView id view).Viewed sub ↔ e.Viewed sub := by
  change ((e.views.insert id view).get? sub).isSome = true ↔ _
  rw [OrdMap.get?_insert_eq]
  split
  next heq =>
    subst heq
    exact iff_of_true rfl hid
  · rfl

theorem Arranged.setView (h : e.Arranged) {id : BodyId} {view before : View}
    (hview : e.views.get? id = some before) : (e.setView id view).Arranged where
  built := h.built
  listed sub hsub := h.listed sub ((viewed_setView (by simp [Viewed, hview]) view sub).1 hsub)
  placed := h.placed

theorem arranged_ofQuery (h : ofQuery plan query policy = .ok e) : e.Arranged := by
  obtain ⟨graph, hgraph, hmade⟩ := Except.bind_eq_ok.1 h
  obtain rfl := Except.pure_eq_ok.1 hmade
  refine ⟨hgraph, fun id hid => ?_, fun entry hentry => ?_⟩
  · obtain ⟨view, hview⟩ := Option.isSome_iff_exists.1 hid
    obtain ⟨id', hmem, heq⟩ := List.mem_map.1 (OrdMap.mem_of_get?_ofList hview)
    obtain ⟨rfl, -⟩ := Prod.mk.inj heq
    exact (List.mem_filter.1 hmem).1
  · obtain ⟨⟨id, feed⟩, hfeed, rfl⟩ := List.mem_map.1 hentry
    have hmem := OrdMap.mem_of_get?_ofList (OrdMap.get?_eq_some_iff.2 hfeed)
    obtain ⟨body, -, hfeed⟩ := List.mem_flatMap.1 hmem
    obtain ⟨⟨source, position⟩, -, hfeed⟩ := List.mem_filterMap.1 hfeed
    dsimp only at hfeed
    split at hfeed <;> cases hfeed
    rfl

theorem Reached.arranged (h : Reached plan query policy e) : e.Arranged := by
  have hguards : Guards Arranged fun _ => True := by
    refine ⟨fun _ _ _ _ _ _ _ => trivial, fun e feeds h hlayout => ?_, fun e id view h hview => ?_,
      fun e changed id view h hview => ?_⟩
    · exact ⟨h.built, h.listed, by rw [layout_setFeeds hlayout]; exact h.placed⟩
    · exact ⟨h.setView hview, fun _ => trivial⟩
    · exact ⟨h.setView hview, fun _ => trivial⟩
  exact hguards.of_reached h fun _ => arranged_ofQuery

/-! ## Feeds that change -/

theorem writeRows_of_unchanged {rows : Rows} {writes : List FeedWrite}
    (h : (writeRows rows writes).2 = []) : (writeRows rows writes).1 = rows := by
  induction writes generalizing rows with
  | nil => rfl
  | cons write rest ih =>
      rw [writeRows] at h ⊢
      dsimp only at h ⊢
      split at h
      next hsame =>
        have hset : rows.set write.key write.row = rows := by
          refine OrdMap.ext_get? fun key => ?_
          rw [OrdMap.get?_set]
          split
          next hkey => rw [hkey, hsame]
          · rfl
        rw [hset] at h ⊢
        exact ih h
      · cases h

/-- A feed without changed keys is as it was. -/
theorem mem_of_unchanged {collection : CollectionId} {batch : List Change}
    {feeds : List (SourceId × Feed)} {written : List (SourceId × Feed × List Key)}
    (h : e.writeFeeds collection batch feeds = .ok written) {id : SourceId} {feed : Feed}
    (hentry : (id, feed, []) ∈ written) : (id, feed) ∈ feeds := by
  induction feeds generalizing written with
  | nil =>
      cases h
      cases hentry
  | cons entry rest ih =>
      obtain ⟨writes, others, -, hothers, rfl⟩ := exists_writes h
      rcases List.mem_cons.1 hentry with heq | hentry
      · obtain ⟨hid, heq⟩ := Prod.mk.inj heq
        obtain ⟨hfeed, hkeys⟩ := Prod.mk.inj heq
        rw [hid, hfeed, writeRows_of_unchanged hkeys.symm]
        exact List.mem_cons_self
      · exact List.mem_cons_of_mem _ (ih hothers hentry)

/-- A feed that has changed has changed keys. -/
theorem exists_touched {collection : CollectionId} {batch : List Change}
    {written : List (SourceId × Feed × List Key)}
    (h : e.writeFeeds collection batch e.feeds.entries = .ok written) {id : SourceId}
    (hchanged : (e.setWritten written).feeds.get? id ≠ e.feeds.get? id) :
    ∃ entry ∈ touchedFeeds written, entry.1 = id := by
  have hkeys := keys_of_map_cleared (cleared_writeFeeds h)
  by_contra hnone
  refine hchanged (Option.ext fun feed => ?_)
  have hentries : (e.setWritten written).feeds.entries
      = written.map fun entry => (entry.1, entry.2.1) := OrdMap.entries_ofList (m := e.feeds) hkeys
  -- the feed is the same as before because none of its keys has changed
  have hkept {feed : Feed} (hfeed : (e.setWritten written).feeds.get? id = some feed) :
      e.feeds.get? id = some feed := by
    have hmem := OrdMap.get?_eq_some_iff.1 hfeed
    rw [hentries] at hmem
    obtain ⟨⟨id', feed', keys⟩, hentry, heq⟩ := List.mem_map.1 hmem
    obtain ⟨rfl, rfl⟩ := Prod.mk.inj heq
    cases keys with
    | nil => exact OrdMap.get?_eq_some_iff.2 (mem_of_unchanged h hentry)
    | cons key keys => exact absurd ⟨_, List.mem_filter.2 ⟨hentry, rfl⟩, rfl⟩ hnone
  refine ⟨hkept, fun hfeed => ?_⟩
  obtain ⟨feed', hfeed'⟩ : ∃ feed', (e.setWritten written).feeds.get? id = some feed' := by
    refine OrdMap.exists_get?_ofList ?_
    rw [hkeys]
    exact List.mem_map_of_mem (f := Prod.fst) (OrdMap.get?_eq_some_iff.1 hfeed)
  obtain rfl := Option.some.inj ((hkept hfeed').symm.trans hfeed)
  exact hfeed'

/-! ## Views one after the other -/

/-- The changed keys when a body other than the query tells changes of its output. -/
def tell (e : Engine) (changed : Changed) (id : BodyId) (changes : List Change) : Changed :=
  if id = e.query then changed
  else if changes.isEmpty then changed
  else { changed with bodies := (id, changes.map Change.key) :: changed.bodies }

/-- The views of some bodies are brought up to date, one after the other, each from the engine and
with the changed keys that those before it leave. -/
inductive Updates : List BodyId → Engine → Changed → Engine → Changed → Prop
  | none (e : Engine) (changed : Changed) : Updates [] e changed e changed
  | next {id : BodyId} {ids : List BodyId} {e e' : Engine} {changed changed' : Changed}
      {view after : View} {changes : List Change} (viewed : e.views.get? id = some view)
      (updated : e.updateView changed id view = .ok changes after)
      (others : Updates ids (e.setView id after) (e.tell changed id changes) e' changed') :
      Updates (id :: ids) e changed e' changed'

/-- An operation has brought the views of some bodies up to date, or has failed at one of them, with
those before it up to date. -/
inductive Updated (ids : List BodyId) (e : Engine) (changed : Changed) :
    EStateM.Result EvalError Engine (List Change) → Prop
  | all {output : List Change} {e' : Engine} {changed' : Changed}
      (updates : Updates ids e changed e' changed') : Updated ids e changed (.ok output e')
  | upTo {before after : List BodyId} {id : BodyId} {e' : Engine} {changed' : Changed}
      {view left : View} {error : EvalError} (split : ids = before ++ id :: after)
      (updates : Updates before e changed e' changed') (viewed : e'.views.get? id = some view)
      (failed : e'.updateView changed' id view = .error error left) :
      Updated ids e changed (.error error (e'.setView id left))

theorem Updated.next {id : BodyId} {ids : List BodyId} {changed : Changed} {view after : View}
    {changes : List Change} {result : EStateM.Result EvalError Engine (List Change)}
    (viewed : e.views.get? id = some view)
    (updated : e.updateView changed id view = .ok changes after)
    (others : Updated ids (e.setView id after) (e.tell changed id changes) result) :
    Updated (id :: ids) e changed result := by
  cases others with
  | all updates => exact .all (.next viewed updated updates)
  | upTo split updates viewed' failed =>
      exact .upTo (congrArg (id :: ·) split) (.next viewed updated updates) viewed' failed

theorem updated_updateViews (ids : List BodyId) (e : Engine) (changed : Changed)
    (output : List Change) :
    Updated (ids.filter e.Viewed) e changed (updateViews changed output ids e) := by
  induction ids generalizing e changed output with
  | nil => exact .all (.none e changed)
  | cons id rest ih =>
      rw [updateViews_cons]
      cases hview : e.views.get? id with
      | none =>
          rw [List.filter_cons_of_neg (by simp [Viewed, hview])]
          exact ih e changed output
      | some view =>
          have hid : e.Viewed id := by simp [Viewed, hview]
          rw [List.filter_cons_of_pos (by simpa using hid)]
          dsimp only
          cases hrun : e.updateView changed id view with
          | error error left => exact .upTo (List.nil_append _).symm (.none e changed) hview hrun
          | ok changes after =>
              have hviewed : rest.filter (e.setView id after).Viewed = rest.filter e.Viewed :=
                List.filter_congr fun sub _ => by
                  simp only [viewed_setView hid after sub]
              have hrest := ih (e.setView id after) (e.tell changed id changes)
                (if id = e.query then changes else output)
              rw [hviewed] at hrest
              refine .next hview hrun ?_
              dsimp only
              convert hrest using 1
              unfold tell
              split_ifs <;> rfl

/-! ## Batches -/

/-- The bodies whose views are brought up to date when feeds are written: each once, and just those
with a view whose node is computed from the node of a changed feed. Among them is each with a view
below which a feed has changed, and each that has one of them below it, after that one. -/
structure Renews (e : Engine) (written : List (SourceId × Feed × List Key)) (ids : List BodyId) :
    Prop where
  nodup : ids.Nodup
  exact : ∀ id, id ∈ ids ↔ e.Viewed id ∧ ∃ k, e.graph.nodeOf? (.body id) = some k ∧
    ∃ entry ∈ touchedFeeds written, Relation.ReflTransGen e.graph.Feeds entry.2.1.node k
  fed : ∀ id, e.Viewed id → ∀ body, Relation.ReflTransGen e.plan.Holds id body →
    ∀ source ∈ (e.plan.body body).sources,
      (e.setWritten written).feeds.get? source.id ≠ e.feeds.get? source.id → id ∈ ids
  readers : ∀ sub ∈ ids, ∀ id, e.Viewed id → Relation.TransGen e.plan.Holds id sub →
    [sub, id].Sublist ids

/-- The bodies with views whose nodes a change of feeds reaches. -/
def renewed (e : Engine) (written : List (SourceId × Feed × List Key)) : List BodyId :=
  (e.affectedBodies ((touchedFeeds written).map fun entry => entry.2.1.node)).filter e.Viewed

theorem affectedBodies_eq (e : Engine) (changed : List NodeId) :
    e.affectedBodies changed = (e.graph.affectedBy changed).filterMap e.graph.bodyOf? :=
  rfl

namespace Arranged

variable (h : e.Arranged)

include h

/-- A body with a view has a listed node. -/
theorem exists_node {id : BodyId} (hid : e.Viewed id) :
    ∃ k ∈ e.graph.order, (e.graph.node k).kind = .selection id :=
  Graph.lists_iff.1 (h.listed id hid)

/-- A listed node that selects a body is its node. -/
theorem nodeOf?_eq {id : BodyId} {k : NodeId} (hk : k ∈ e.graph.order)
    (hkind : (e.graph.node k).kind = .selection id) : e.graph.nodeOf? (.body id) = some k :=
  have hrooted := rooted_of_graph h.built
  hrooted.selects k id (Node.lt_of_mem_inOrder hrooted.mirrored hk) hkind

theorem mem_renewed_iff {written : List (SourceId × Feed × List Key)} {id : BodyId} :
    id ∈ e.renewed written ↔ e.Viewed id ∧ ∃ k, e.graph.nodeOf? (.body id) = some k ∧
      ∃ entry ∈ touchedFeeds written, Relation.ReflTransGen e.graph.Feeds entry.2.1.node k := by
  have hmirror := (rooted_of_graph h.built).mirrored
  rw [renewed, List.mem_filter, decide_eq_true_eq, and_comm, affectedBodies_eq, List.mem_filterMap]
  refine and_congr_right fun hid => ⟨?_, ?_⟩
  · rintro ⟨k, hk, hbody⟩
    obtain ⟨hlisted, c, hc, hreach⟩ := (Graph.mem_affectedBy_iff hmirror).1 hk
    obtain ⟨entry, hentry, rfl⟩ := List.mem_map.1 hc
    exact ⟨k, h.nodeOf?_eq hlisted (Graph.bodyOf?_eq_some_iff.1 hbody), entry, hentry, hreach⟩
  · rintro ⟨k, hnode, entry, hentry, hreach⟩
    obtain ⟨k', hlisted, hkind⟩ := h.exists_node hid
    obtain rfl := Option.some.inj (hnode.symm.trans (h.nodeOf?_eq hlisted hkind))
    exact ⟨k, (Graph.mem_affectedBy_iff hmirror).2
      ⟨hlisted, _, List.mem_map_of_mem hentry, hreach⟩, Graph.bodyOf?_eq_some_iff.2 hkind⟩

variable (sourcesApart : e.plan.SourcesApart) (exprsApart : e.plan.ExprsApart)
  {collection : CollectionId} {batch : List Change} {written : List (SourceId × Feed × List Key)}

include sourcesApart exprsApart

theorem mem_renewed_of_fed (hwritten : e.writeFeeds collection batch e.feeds.entries = .ok written)
    {id body : BodyId} (hid : e.Viewed id) (below : Relation.ReflTransGen e.plan.Holds id body)
    {source : Source} (hsource : source ∈ (e.plan.body body).sources)
    (hchanged : (e.setWritten written).feeds.get? source.id ≠ e.feeds.get? source.id) :
    id ∈ e.renewed written := by
  obtain ⟨entry, hentry, hentryId⟩ := exists_touched hwritten hchanged
  obtain ⟨k, hk, hkind⟩ := h.exists_node hid
  obtain ⟨j, hj, hbody, hreach⟩ :=
    Plan.exists_feeding_of_reach h.built sourcesApart exprsApart hk hkind below
  have hlt : j < e.graph.size :=
    Node.lt_of_mem_inOrder (rooted_of_graph h.built).mirrored hj
  obtain ⟨n, hn, hfeeds⟩ :=
    Plan.exists_feeding_of_source h.built sourcesApart exprsApart hlt hbody hsource
  -- the changed feed is at the node of the source
  have hcleared : cleared (entry.1, entry.2.1) ∈ e.layout := by
    have hmem := List.mem_map_of_mem (f := fun entry => cleared (entry.1, entry.2.1))
      (List.mem_filter.1 hentry).1
    have hsame := cleared_writeFeeds hwritten
    rw [List.map_map] at hsame
    rw [layout, ← hsame]
    exact hmem
  have hnode : entry.2.1.node = n := by
    have hplaced := h.placed _ hcleared
    rw [show (cleared (entry.1, entry.2.1)).1 = source.id from hentryId, hn] at hplaced
    exact hplaced
  exact h.mem_renewed_iff.2
    ⟨hid, k, h.nodeOf?_eq hk hkind, entry, hentry, hnode ▸ .head hfeeds hreach⟩

theorem sublist_renewed {id sub : BodyId} (hsub : sub ∈ e.renewed written) (hid : e.Viewed id)
    (below : Relation.TransGen e.plan.Holds id sub) : [sub, id].Sublist (e.renewed written) := by
  have hmirror := (rooted_of_graph h.built).mirrored
  obtain ⟨k, hk, hkind⟩ := h.exists_node hid
  obtain ⟨j, hj, hbody, hreach⟩ :=
    Plan.exists_feeding_of_reach h.built sourcesApart exprsApart hk hkind below.to_reflTransGen
  obtain ⟨hviewed, j', hnode, entry, hentry, hfeeds⟩ := h.mem_renewed_iff.1 hsub
  obtain rfl := Option.some.inj (hnode.symm.trans (h.nodeOf?_eq hj hbody))
  -- the two nodes differ since no body is below itself
  have hstrict : Relation.TransGen e.graph.Feeds j' k := by
    rcases Relation.reflTransGen_iff_eq_or_transGen.1 hreach with rfl | hreach
    · obtain rfl := NodeKind.selection.inj (hkind.symm.trans hbody)
      have hground := (Plan.grounded_of_graph h.built sourcesApart exprsApart).reach
        (Plan.reach_of_selections h.built (h.listed id hid))
      exact absurd below hground.not_cyclic
    · exact hreach
  have hmem : entry.2.1.node ∈ (touchedFeeds written).map fun entry => entry.2.1.node :=
    List.mem_map_of_mem (f := fun entry => entry.2.1.node) hentry
  have hnodes := Graph.inputs_first_affectedBy hmirror
    ((Graph.mem_affectedBy_iff hmirror).2 ⟨hj, _, hmem, hfeeds⟩)
    ((Graph.mem_affectedBy_iff hmirror).2 ⟨hk, _, hmem, hfeeds.trans hreach⟩) hstrict
  have hbodies := (hnodes.filterMap e.graph.bodyOf?).filter fun id => decide (e.Viewed id)
  rw [renewed, affectedBodies_eq]
  simpa [Graph.bodyOf?_eq_some_iff.2 hbody, Graph.bodyOf?_eq_some_iff.2 hkind, hviewed, hid]
    using hbodies

theorem renews (hwritten : e.writeFeeds collection batch e.feeds.entries = .ok written) :
    e.Renews written (e.renewed written) where
  nodup := by
    have hrooted := rooted_of_graph h.built
    have hlisted := hrooted.nodup_selections
    rw [bodies_selections] at hlisted
    exact (hlisted.sublist (List.filter_sublist.filterMap _)).filter _
  exact _ := h.mem_renewed_iff
  fed _ hid _ below _ := h.mem_renewed_of_fed sourcesApart exprsApart hwritten hid below
  readers _ hsub _ hid := h.sublist_renewed sourcesApart exprsApart hsub hid

end Arranged

theorem updated_apply {collection : CollectionId} {batch : List Change}
    {written : List (SourceId × Feed × List Key)}
    (hwritten : e.writeFeeds collection batch e.feeds.entries = .ok written) :
    Updated (e.renewed written) (e.setWritten written)
      { sources := (touchedFeeds written).map fun entry => (entry.1, entry.2.2) }
      (apply collection batch e) := by
  simp only [apply_eq, hwritten]
  split
  next hempty =>
    have hnone : e.renewed written = [] := by
      rw [renewed, List.isEmpty_iff.1 hempty, affectedBodies_eq, List.map_nil, Graph.affectedBy_nil]
      rfl
    rw [hnone]
    exact .all (.none _ _)
  · exact updated_updateViews _ (e.setWritten written) _ []

/-- Where the order of the nodes of a graph has them all, the search from some nodes comes to its
end, and what is taken from the order are these nodes and all that is computed from them, each once
and after what it is computed from. The graph of an engine is such a one but for cycles.

A batch that can be held against the filters brings the views of bodies up to date in such an order:
each once, those below which a feed has changed, and those that read one that is brought up to date
after it. It gets through all of them or fails at one. -/
theorem propagation_exact :
    (∀ g : Graph, Node.Mirrored g.nodes → g.order.Perm (List.range g.size) →
      ∀ changed : List NodeId, (∀ c ∈ changed, c < g.size) →
        (∀ met, Node.Explores (Node.dependentsIn g.nodes) [] changed met ↔
          met = Node.reachUp g.nodes changed) ∧
        g.Affected changed (g.affectedBy changed)) ∧
    ∀ plan query policy e, plan.Written → Reached plan query policy e →
      Node.Mirrored e.graph.nodes ∧
      ∀ collection batch,
        match e.writeFeeds collection batch e.feeds.entries with
        | .error error => apply collection batch e = .error error e
        | .ok written => ∃ ids, e.Renews written ids ∧
            Updated ids (e.setWritten written)
              { sources := (touchedFeeds written).map fun entry => (entry.1, entry.2.2) }
              (apply collection batch e) := by
  constructor
  · intro g mirrored complete changed known
    have hmet := Node.explores_reachUp g.nodes changed
    exact ⟨fun met => ⟨fun h => h.unique hmet, fun h => h ▸ hmet⟩,
      Graph.affected_affectedBy mirrored complete known⟩
  · intro plan query policy e written reached
    have harranged := reached.arranged
    obtain ⟨rfl, rfl⟩ := reached.made_for
    refine ⟨(rooted_of_graph harranged.built).mirrored, fun collection batch => ?_⟩
    split
    next error herror => simp only [apply_eq, herror]
    next hwritten =>
      exact ⟨_, harranged.renews written.sourcesApart written.exprsApart hwritten,
        updated_apply hwritten⟩

/-- A row comes to the only collection of `selfCompared`: the view of the inner body is brought up
to date, and then that of the query, which reads the inner one and no feed. -/
theorem propagation_exact_inner :
    ∃ e, Reached Plan.selfCompared 0 .undefined e ∧
      e.graph.Affected [2, 2] (e.graph.affectedBy [2, 2]) ∧
      ∃ written ids, e.writeFeeds 0 [⟨.insert, ⟨[.int 1]⟩, .nil⟩] e.feeds.entries = .ok written ∧
        e.Renews written ids ∧ [1, 0].Sublist ids ∧
        Updated ids (e.setWritten written)
          { sources := (touchedFeeds written).map fun entry => (entry.1, entry.2.2) }
          (apply 0 [⟨.insert, ⟨[.int 1]⟩, .nil⟩] e) := by
  have hwritten : Plan.selfCompared.Written := Plan.written_write ⟨[], .first⟩ (by decide +kernel)
  obtain ⟨e, hreached, hknown⟩ : ∃ e, Reached Plan.selfCompared 0 .undefined e ∧
      (decide (e.graph.order.Perm (List.range e.graph.size) ∧ 2 < e.graph.size),
        decide (e.Viewed 0 ∧ e.Viewed 1),
        (e.writeFeeds 0 [⟨.insert, ⟨[.int 1]⟩, .nil⟩] e.feeds.entries).toOption.map fun written =>
          decide (((e.setWritten written).feeds.get? 0).map (·.rows.keys)
            ≠ (e.feeds.get? 0).map (·.rows.keys))) = (true, true, some true) :=
    exists_loaded (fun _ => .empty) (by decide +kernel)
  simp only [Prod.mk.injEq, decide_eq_true_eq] at hknown
  obtain ⟨⟨hcomplete, hsize⟩, ⟨hroot, hinner⟩, hfeeds⟩ := hknown
  obtain ⟨written, hdecided, hchanged⟩ := Except.exists_of_toOption hfeeds
  obtain ⟨hgraphs, hengines⟩ := propagation_exact
  obtain ⟨hmirror, hbatches⟩ := hengines _ _ _ e hwritten hreached
  have hbatch := hbatches 0 [⟨.insert, ⟨[.int 1]⟩, .nil⟩]
  rw [hdecided] at hbatch
  obtain ⟨ids, hrenews, hupdated⟩ := hbatch
  have hplan := hreached.made_for.1
  have hrows : ⟨0, "row", .collection ⟨0, "rows"⟩, none⟩ ∈ (Plan.selfCompared.body 1).sources := by
    decide +kernel
  have hreads : ⟨1, "r", .query 1, none⟩ ∈ (Plan.selfCompared.body 0).sources := by
    decide +kernel
  have hfed : 1 ∈ ids := by
    refine hrenews.fed 1 hinner 1 .refl _ (hplan ▸ hrows) fun hsame => ?_
    dsimp only at hsame
    exact of_decide_eq_true hchanged (congrArg (Option.map (·.rows.keys)) hsame)
  exact ⟨e, hreached, (hgraphs e.graph hmirror hcomplete [2, 2] (by simpa using hsize)).2, _, ids,
    hdecided, hrenews, hrenews.readers 1 hfed 0 hroot (.single (.source (hplan ▸ hreads) rfl)),
    hupdated⟩

end Engine

end LiveQuery
