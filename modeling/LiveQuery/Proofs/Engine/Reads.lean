import LiveQuery.Proofs.Dedup
import LiveQuery.Proofs.Engine.Output
import LiveQuery.Proofs.Plan.Occurrences

/-!
# What an engine reads

The feeds of an engine are those of the sources of its query. Batches change the rows of a
feed and nothing else of it, so an engine reads the same collections as long as it is there.

**Results.** `Reached.mem_collections_iff` and `nodup_collections`: an engine lists the
collections that a source of one of its bodies reads, each once.
-/

namespace LiveQuery

/-- A feed has its place, its collection and its filters from a source. -/
structure Feed.Belongs (feed : Feed) (plan : Plan) (source : Source) : Prop where
  place : (plan.body feed.body).sources[feed.position]? = some source
  origin : source.origin = .collection feed.collection
  filters : feed.filters = (plan.body feed.body).pushable source

namespace Engine

/-- A feed without its rows. -/
def cleared (entry : SourceId × Feed) : SourceId × Feed :=
  (entry.1, { entry.2 with rows := .empty })

/-- The feeds of an engine without their rows. -/
def layout (e : Engine) : List (SourceId × Feed) :=
  e.feeds.entries.map cleared

theorem keys_of_map_cleared {l l' : List (SourceId × Feed)} (h : l.map cleared = l'.map cleared) :
    l.map Prod.fst = l'.map Prod.fst := by
  have := congrArg (List.map Prod.fst) h
  rwa [List.map_map, List.map_map] at this

/-- An engine reads the same as before when its feeds have new rows only. -/
theorem layout_setFeeds {e : Engine} {feeds : List (SourceId × Feed)}
    (h : feeds.map cleared = e.layout) : (e.setFeeds (.ofList feeds)).layout = e.layout := by
  have hentries : (OrdMap.ofList feeds).entries = feeds :=
    OrdMap.entries_ofList (m := e.feeds) (keys_of_map_cleared h)
  change (OrdMap.ofList feeds).entries.map cleared = e.layout
  rw [hentries, h]

theorem cleared_loadAll {e : Engine} {contents : CollectionId → Rows}
    {feeds loaded : List (SourceId × Feed)} (h : e.loadAll contents feeds = .ok loaded) :
    loaded.map cleared = feeds.map cleared := by
  induction feeds generalizing loaded with
  | nil =>
      cases h
      rfl
  | cons entry rest ih =>
      obtain ⟨rows, _, h⟩ := Except.bind_eq_ok.1 h
      obtain ⟨others, hothers, h⟩ := Except.bind_eq_ok.1 h
      obtain rfl := Except.pure_eq_ok.1 h
      exact congrArg (cleared entry :: ·) (ih hothers)

/-- What is written to the first feed, and then to the others. -/
theorem exists_writes {e : Engine} {collection : CollectionId} {batch : List Change}
    {entry : SourceId × Feed} {rest : List (SourceId × Feed)}
    {written : List (SourceId × Feed × List Key)}
    (h : e.writeFeeds collection batch (entry :: rest) = .ok written) : ∃ writes others,
      (e.feedWrites entry.2 batch = .ok writes ∨ writes = []) ∧
      e.writeFeeds collection batch rest = .ok others ∧
      written = (entry.1, { entry.2 with rows := (writeRows entry.2.rows writes).1 },
        (writeRows entry.2.rows writes).2) :: others := by
  rw [writeFeeds] at h
  by_cases hcollection : entry.2.collection.id = collection
  · rw [if_pos hcollection] at h
    obtain ⟨writes, hwrites, h⟩ := Except.bind_eq_ok.1 h
    obtain ⟨others, hothers, h⟩ := Except.bind_eq_ok.1 h
    exact ⟨writes, others, .inl hwrites, hothers, (Except.pure_eq_ok.1 h).symm⟩
  · rw [if_neg hcollection] at h
    obtain ⟨writes, hwrites, h⟩ := Except.bind_eq_ok.1 h
    obtain ⟨others, hothers, h⟩ := Except.bind_eq_ok.1 h
    exact ⟨writes, others, .inr (Except.pure_eq_ok.1 hwrites).symm, hothers,
      (Except.pure_eq_ok.1 h).symm⟩

theorem cleared_writeFeeds {e : Engine} {collection : CollectionId} {batch : List Change}
    {feeds : List (SourceId × Feed)} {written : List (SourceId × Feed × List Key)}
    (h : e.writeFeeds collection batch feeds = .ok written) :
    (written.map fun entry => (entry.1, entry.2.1)).map cleared = feeds.map cleared := by
  induction feeds generalizing written with
  | nil =>
      cases h
      rfl
  | cons entry rest ih =>
      obtain ⟨writes, others, -, hothers, rfl⟩ := exists_writes h
      exact congrArg (cleared entry :: ·) (ih hothers)

theorem keepsLayout_load (contents : CollectionId → Rows) : Keeps layout (load contents) := by
  intro e
  rw [load_eq]
  split
  · rfl
  next feeds hfeeds =>
    exact (keeps_startViews (fun _ _ _ => rfl) _ _).trans (layout_setFeeds (cleared_loadAll hfeeds))

theorem keepsLayout_apply (collection : CollectionId) (batch : List Change) :
    Keeps layout (apply collection batch) := by
  intro e
  rw [apply_eq]
  split
  · rfl
  next written hwritten =>
    have hset : (e.setWritten written).layout = e.layout :=
      layout_setFeeds (cleared_writeFeeds hwritten)
    split
    · exact hset
    · exact (keeps_updateViews (fun _ _ _ => rfl) _ _ _ _).trans hset

/-! ## Collections -/

theorem collections_eq (e : Engine) :
    e.collections = (e.layout.map fun entry => entry.2.collection).eraseDupsBy
      fun a b => a.id == b.id := by
  unfold collections layout OrdMap.values
  rw [List.map_map, List.map_map]
  rfl

theorem collections_of_layout {e e' : Engine} (h : e'.layout = e.layout) :
    e'.collections = e.collections := by
  rw [collections_eq, collections_eq, h]

/-- A collection is listed when a feed reads it. -/
theorem mem_collections (e : Engine) (c : CollectionId) :
    c ∈ e.collections.map CollectionRef.id ↔ ∃ feed ∈ e.feeds.values, feed.collection.id = c := by
  constructor
  · intro h
    obtain ⟨ref, href, rfl⟩ := List.mem_map.1 h
    obtain ⟨feed, hfeed, rfl⟩ := List.mem_map.1 ((eraseDupsBy_sublist _ _).subset href)
    exact ⟨feed, hfeed, rfl⟩
  · rintro ⟨feed, hfeed, rfl⟩
    obtain ⟨ref, href, hsame⟩ := exists_mem_eraseDupsBy (fun a b : CollectionRef => a.id == b.id)
      (fun _ => beq_self_eq_true _) (List.mem_map_of_mem (f := Feed.collection) hfeed)
    exact List.mem_map.2 ⟨ref, href, (beq_iff_eq.1 hsame).symm⟩

theorem nodup_collections (e : Engine) : (e.collections.map CollectionRef.id).Nodup := by
  refine List.pairwise_map.2 ((pairwise_eraseDupsBy _ _).imp fun {a b} hab heq => ?_)
  simp [heq] at hab

/-- The feeds of the bodies of a query are those of their sources that read collections. -/
theorem mem_feedsOf {plan : Plan} {graph : Graph} {body : BodyId} {id : SourceId} {feed : Feed}
    (h : (id, feed) ∈ plan.feedsOf graph body) :
    feed.body = body ∧ ∃ source : Source, source.id = id ∧ feed.Belongs plan source := by
  obtain ⟨⟨source, position⟩, hsource, hfeed⟩ := List.mem_filterMap.1 h
  dsimp only at hfeed
  split at hfeed
  · cases hfeed
  next ref horigin =>
    cases hfeed
    exact ⟨rfl, source, rfl, List.mk_mem_zipIdx_iff_getElem?.1 hsource, horigin, rfl⟩

/-- A feed has no rows before it is loaded. -/
theorem rows_of_feedsOf {plan : Plan} {graph : Graph} {body : BodyId} {id : SourceId} {feed : Feed}
    (h : (id, feed) ∈ plan.feedsOf graph body) : feed.rows = .empty := by
  obtain ⟨⟨source, position⟩, -, hfeed⟩ := List.mem_filterMap.1 h
  dsimp only at hfeed
  split at hfeed
  · cases hfeed
  · cases hfeed
    rfl

/-- The feed of a source that reads a collection. -/
theorem feed_mem_feedsOf {plan : Plan} (graph : Graph) {body : BodyId} {position : Nat}
    {source : Source} {ref : CollectionRef}
    (hsource : (plan.body body).sources[position]? = some source)
    (horigin : source.origin = .collection ref) :
    (source.id,
      { node := (graph.nodeOf? (.source source.id)).getD 0
        body
        position
        collection := ref
        filters := (plan.body body).pushable source }) ∈ plan.feedsOf graph body := by
  refine List.mem_filterMap.2 ⟨(source, position), ?_, ?_⟩
  · exact List.mk_mem_zipIdx_iff_getElem?.2 hsource
  · dsimp only
    rw [horigin]

theorem exists_mem_feedsOf {plan : Plan} (graph : Graph) {body : BodyId} {source : Source}
    {ref : CollectionRef} (hsource : source ∈ (plan.body body).sources)
    (horigin : source.origin = .collection ref) :
    ∃ feed, (source.id, feed) ∈ plan.feedsOf graph body := by
  obtain ⟨position, hposition⟩ := List.getElem?_of_mem hsource
  exact ⟨_, feed_mem_feedsOf graph hposition horigin⟩

/-- A source of one of the bodies reads a collection. -/
def Reads (e : Engine) (c : CollectionId) : Prop :=
  ∃ entry ∈ e.graph.selections, ∃ source ∈ (e.plan.body entry.2).sources, ∃ ref,
    source.origin = .collection ref ∧ ref.id = c

variable {plan : Plan} {query : BodyId} {policy : FieldPolicy} {e : Engine}

/-- A feed is that of a source of a body. -/
theorem feeds_ofQuery (h : ofQuery plan query policy = .ok e) :
    ∀ entry ∈ e.feeds.entries, entry.2.body ∈ e.graph.selections.map Prod.snd ∧
      ∃ source : Source, source.id = entry.1 ∧ entry.2.Belongs plan source := by
  obtain ⟨graph, _, hmade⟩ := Except.bind_eq_ok.1 h
  obtain rfl := Except.pure_eq_ok.1 hmade
  intro entry hentry
  have hmem := OrdMap.mem_of_get?_ofList (OrdMap.get?_eq_some_iff.2 hentry)
  obtain ⟨body, hbody, hfeed⟩ := List.mem_flatMap.1 hmem
  obtain ⟨rfl, hsource⟩ := mem_feedsOf hfeed
  exact ⟨hbody, hsource⟩

theorem mem_collections_ofQuery (hapart : plan.SourcesApart)
    (h : ofQuery plan query policy = .ok e) (c : CollectionId) :
    c ∈ e.collections.map CollectionRef.id ↔ e.Reads c := by
  rw [mem_collections]
  constructor
  · rintro ⟨feed, hfeed, hc⟩
    obtain ⟨entry, hentry, rfl⟩ := List.mem_map.1 hfeed
    obtain ⟨hbody, source, _, hbelongs⟩ := feeds_ofQuery h entry hentry
    obtain ⟨graph, _, hmade⟩ := Except.bind_eq_ok.1 h
    obtain rfl := Except.pure_eq_ok.1 hmade
    obtain ⟨selection, hselection, hsame⟩ := List.mem_map.1 hbody
    refine ⟨selection, hselection, source, ?_, _, hbelongs.origin, hc⟩
    exact hsame ▸ List.mem_of_getElem? hbelongs.place
  · rintro ⟨entry, hentry, source, hsource, ref, horigin, hc⟩
    have hfeeds := feeds_ofQuery h
    obtain ⟨graph, _, hmade⟩ := Except.bind_eq_ok.1 h
    obtain rfl := Except.pure_eq_ok.1 hmade
    obtain ⟨feed, hfeed⟩ := exists_mem_feedsOf graph hsource horigin
    have hmem : (source.id, feed) ∈ (graph.selections.map Prod.snd).flatMap (plan.feedsOf graph) :=
      List.mem_flatMap.2 ⟨entry.2, List.mem_map_of_mem hentry, hfeed⟩
    obtain ⟨found, hfound⟩ := OrdMap.exists_get?_ofList (List.mem_map_of_mem (f := Prod.fst) hmem)
    have hfound := OrdMap.get?_eq_some_iff.1 hfound
    obtain ⟨_, source', hid, hbelongs⟩ := hfeeds _ hfound
    have hsource' := List.mem_of_getElem? hbelongs.place
    have horigin' := hbelongs.origin
    -- the feed that was kept is that of the same source
    obtain rfl := hapart _ (Plan.body_mem_bodies hsource') _ (Plan.body_mem_bodies hsource)
      _ hsource' _ hsource hid
    cases horigin.symm.trans horigin'
    exact ⟨found, List.mem_map.2 ⟨_, hfound, rfl⟩, hc⟩

/-- An engine that is reached reads what it did when it was made. -/
theorem Reached.made_of (h : Reached plan query policy e) :
    ∃ start, ofQuery plan query policy = .ok start ∧ e.layout = start.layout ∧
      e.settings = start.settings := by
  induction h with
  | made h => exact ⟨_, h, rfl, rfl⟩
  | loaded contents _ ih =>
      obtain ⟨start, hmade, hlayout, hsettings⟩ := ih
      exact ⟨start, hmade, (keepsLayout_load contents _).trans hlayout,
        (keepsSettings_load contents _).trans hsettings⟩
  | applied collection batch _ ih =>
      obtain ⟨start, hmade, hlayout, hsettings⟩ := ih
      exact ⟨start, hmade, (keepsLayout_apply collection batch _).trans hlayout,
        (keepsSettings_apply collection batch _).trans hsettings⟩

theorem reads_of_settings {e e' : Engine} (h : e'.settings = e.settings) (c : CollectionId) :
    e'.Reads c ↔ e.Reads c := by
  obtain ⟨hplan, hgraph, _⟩ : e'.plan = e.plan ∧ e'.graph = e.graph ∧ _ := by
    simpa [settings, Prod.ext_iff] using h
  unfold Reads
  rw [hplan, hgraph]

theorem Reached.mem_collections_iff (hapart : plan.SourcesApart)
    (h : Reached plan query policy e) (c : CollectionId) :
    c ∈ e.collections.map CollectionRef.id ↔ e.Reads c := by
  obtain ⟨start, hmade, hlayout, hsettings⟩ := h.made_of
  rw [collections_of_layout hlayout, reads_of_settings hsettings]
  exact mem_collections_ofQuery hapart hmade c

end Engine

end LiveQuery
