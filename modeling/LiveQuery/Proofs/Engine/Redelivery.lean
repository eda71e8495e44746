import LiveQuery.Proofs.Collection
import LiveQuery.Proofs.Engine.Binding
import LiveQuery.Proofs.Engine.Convergence
import LiveQuery.Proofs.Engine.Outside
import LiveQuery.Proofs.Engine.Unfiltered
import LiveQuery.Proofs.Engine.Upkeep
import LiveQuery.Proofs.View.Current

/-!
# Batches that were seen already

An engine may be loaded while a batch is on its way to it that the collection has already taken in.
On the way through the batch a feed has rows that it had before, and their keys count as changed,
but at the end it has the rows that it was loaded with. The views are brought up to date for these
keys and come out as they were.

**Invariants.** `Engine.Mirrors`: a feed has the rows of its collection that pass its filters.
`Engine.UpToDate`: the views of bodies are as they are derived from what the engine reads.

**Results.** `Engine.seen_batch_ignored`.
-/

namespace LiveQuery

/-- Keys that are told apart as parts of the keys of tuples. -/
def Key.AllApart (keys : List Key) : Prop :=
  ∀ k ∈ keys, ∀ k' ∈ keys, k.toScalar = k'.toScalar → k = k'

theorem Key.AllApart.subset {keys keys' : List Key} (h : Key.AllApart keys) (hsub : keys' ⊆ keys) :
    Key.AllApart keys' :=
  fun k hk k' hk' => h k (hsub hk) k' (hsub hk')

/-- Entries that are picked from a map make a map of these. -/
theorem OrdMap.get?_ofList_filter {κ ν : Type} [Ord κ] [DecidableEq κ] [Std.TransOrd κ]
    [Std.LawfulEqOrd κ] (m : OrdMap κ ν) (p : κ × ν → Bool) (key : κ) :
    (OrdMap.ofList (m.entries.filter p)).get? key
      = (m.get? key).filter fun value => p (key, value) := by
  have hentries : (OrdMap.ofList (m.entries.filter p)).entries = m.entries.filter p :=
    OrdMap.entries_ofList (m := ⟨_, m.increasing.filter p⟩) rfl
  refine Option.ext fun value => ?_
  rw [OrdMap.get?_eq_some_iff, hentries, List.mem_filter, Option.filter_eq_some_iff,
    OrdMap.get?_eq_some_iff]

namespace Engine

/-! ## Feeds -/

section Feeds

variable {e : Engine} {feed : Feed} {keep : Row → Bool}

/-- What is written to a feed that keeps some rows. -/
def feedWrite (keep : Row → Bool) (change : Change) : FeedWrite :=
  ⟨change.key, (Collection.outcome change).filter keep⟩

theorem feedWrites_eq (hpasses : ∀ row, e.passes feed row = .ok (keep row)) (batch : List Change) :
    e.feedWrites feed batch = .ok (batch.map (feedWrite keep)) := by
  induction batch with
  | nil => rfl
  | cons change rest ih =>
      rw [feedWrites, ih]
      unfold feedWrite Collection.outcome
      cases hkind : change.isUpsert with
      | false => simp [hkind, bind, Except.bind, pure, Except.pure]
      | true =>
          cases hkeep : keep change.row <;>
            simp [hkind, hpasses, hkeep, Option.filter, bind, Except.bind, pure, Except.pure]

/-- At the keys of a batch a feed has afterwards what it keeps of the rows that the batch leads to,
whatever it had before. -/
theorem get?_writeRows (rows before : Rows) (batch : List Change) (key : Key) :
    (writeRows rows (batch.map (feedWrite keep))).1.get? key
      = if key ∈ batch.map Change.key then ((Change.replay batch before).get? key).filter keep
        else rows.get? key := by
  induction batch generalizing rows before with
  | nil => rfl
  | cons change rest ih =>
      rw [List.map_cons, writeRows, Change.replay_cons]
      dsimp only
      rw [ih _ (change.applyTo before)]
      by_cases hrest : key ∈ rest.map Change.key
      · simp [hrest]
      · rw [if_neg hrest, Change.get?_replay_of_not_mem hrest, OrdMap.get?_set,
          Change.get?_applyTo]
        by_cases hkey : key = change.key
        · simp [hkey, feedWrite]
        · simp [hkey, hrest, feedWrite]

/-- Only keys that are written count as changed. -/
theorem keys_writeRows (rows : Rows) (writes : List FeedWrite) :
    (writeRows rows writes).2 ⊆ writes.map FeedWrite.key := by
  induction writes generalizing rows with
  | nil => exact List.Subset.refl _
  | cons write rest ih =>
      rw [writeRows]
      dsimp only
      split
      · exact List.subset_cons_of_subset _ (ih _)
      · exact List.cons_subset_cons _ (ih _)

/-- A feed can hold each row against its filters, and has the rows of its collection that pass. -/
def Mirrors (e : Engine) (contents : CollectionId → Rows) (feed : Feed) : Prop :=
  ∃ keep : Row → Bool, (∀ row, e.passes feed row = .ok (keep row)) ∧
    ∀ key, feed.rows.get? key = ((contents feed.collection.id).get? key).filter keep

variable {contents : CollectionId → Rows} {collection : CollectionId} {batch : List Change}
  {before : Rows}

/-- The keys of a feed are among those of its collection. -/
theorem Mirrors.keys_subset (h : e.Mirrors contents feed) :
    feed.rows.keys ⊆ (contents feed.collection.id).keys := by
  obtain ⟨keep, -, hrows⟩ := h
  intro key hkey
  obtain ⟨row, hrow⟩ := OrdMap.mem_keys.1 hkey
  rw [hrows, Option.filter_eq_some_iff] at hrow
  exact OrdMap.mem_keys.2 ⟨row, hrow.1⟩

/-- Feeds that have the rows a batch leads to have them after it. -/
theorem writeFeeds_seen (seen : Change.replay batch before = contents collection)
    {feeds : List (SourceId × Feed)} (mirrors : ∀ entry ∈ feeds, e.Mirrors contents entry.2) :
    ∃ written, e.writeFeeds collection batch feeds = .ok written ∧
      (written.map fun entry => (entry.1, entry.2.1)) = feeds ∧
      ∀ entry ∈ written, ∀ key ∈ entry.2.2,
        entry.2.1.collection.id = collection ∧ key ∈ batch.map Change.key := by
  induction feeds with
  | nil => exact ⟨[], rfl, rfl, fun entry h => absurd h List.not_mem_nil⟩
  | cons entry rest ih =>
      obtain ⟨⟨keep, hpasses, hrows⟩, hrest⟩ := List.forall_mem_cons.1 mirrors
      obtain ⟨others, hothers, hsame, hkeys⟩ := ih hrest
      by_cases hcollection : entry.2.collection.id = collection
      · let writes := batch.map (feedWrite keep)
        have hwritten : (writeRows entry.2.rows writes).1 = entry.2.rows := by
          refine OrdMap.ext_get? fun key => ?_
          rw [get?_writeRows _ before, seen, hrows key, hcollection, ite_self]
        refine ⟨(entry.1, entry.2, (writeRows entry.2.rows writes).2) :: others, ?_, ?_,
          List.forall_mem_cons.2 ⟨fun key hkey => ⟨hcollection, ?_⟩, hkeys⟩⟩
        · rw [writeFeeds, if_pos hcollection, feedWrites_eq hpasses, hothers]
          simp only [bind, Except.bind, pure, Except.pure]
          rw [show (writeRows entry.2.rows (batch.map (feedWrite keep))).1 = entry.2.rows from
            hwritten]
        · rw [List.map_cons, hsame]
        · have hmem := keys_writeRows _ _ hkey
          rwa [List.map_map] at hmem
      · refine ⟨(entry.1, entry.2, []) :: others, ?_, ?_,
          List.forall_mem_cons.2 ⟨fun key hkey => absurd hkey List.not_mem_nil, hkeys⟩⟩
        · rw [writeFeeds, if_neg hcollection, hothers]
          rfl
        · rw [List.map_cons, hsame]

end Feeds

/-! ## Feeds of engines that are loaded -/

section Loaded

variable {plan : Plan} {query : BodyId} {policy : FieldPolicy} {e made : Engine}
  {contents : CollectionId → Rows}

/-- The feeds of an engine are those of sources of its plan. -/
theorem Reached.belongs (h : Reached plan query policy e) :
    ∀ entry ∈ e.feeds.entries, ∃ source, entry.2.Belongs plan source := by
  obtain ⟨start, hmade, hlayout, -⟩ := h.made_of
  intro entry hentry
  have hmem : cleared entry ∈ start.layout := hlayout ▸ List.mem_map_of_mem (f := cleared) hentry
  obtain ⟨entry', hentry', hsame⟩ := List.mem_map.1 hmem
  obtain ⟨-, source, -, hbelongs⟩ := feeds_ofQuery hmade entry' hentry'
  obtain ⟨node, body, position, ref, filters, rows⟩ := entry
  cases hsame
  exact ⟨source, hbelongs.place, hbelongs.origin, hbelongs.filters⟩

theorem Reached.policy_eq (h : Reached plan query policy e) : e.policy = policy := by
  obtain ⟨start, hmade, -, hsettings⟩ := h.made_of
  have hpolicy : e.policy = start.policy := congrArg (fun settings => settings.2.2.2) hsettings
  exact hpolicy.trans (ofQuery_under hmade policy).2

theorem Reached.of_load (h : Reached plan query policy made)
    (loaded : load contents made = .ok () e) : Reached plan query policy e := by
  have hafter := h.loaded contents
  rwa [loaded] at hafter

/-- Under the default policy, a feed can hold any row against its filters. -/
theorem passes_of_belongs (hpolicy : e.policy = .undefined) {feed : Feed} {source : Source}
    (h : feed.Belongs e.plan source) (row : Row) :
    e.passes feed row
      = .ok (e.evaluator.meetsAll [JoinPlan.alone feed.body feed.position row] feed.filters) := by
  obtain ⟨position, hposition, -⟩ := Body.exists_position?_le h.place
  have hbound := @JoinPlan.bound_frames e.evaluator feed.body [] source.name position hposition
    (List.replicate feed.position .undefined ++ [.record row])
  exact Evaluator.meets_eq_ok (fun _ hc => Body.readsOnly_of_pushable (h.filters ▸ hc)) hpolicy
    hbound

theorem exists_of_mem_loadAll {feeds loaded : List (SourceId × Feed)}
    (h : e.loadAll contents feeds = .ok loaded) : ∀ entry ∈ loaded, ∃ first ∈ feeds, ∃ kept,
      e.passing first.2 (contents first.2.collection.id).entries = .ok kept ∧
        entry = (first.1, { first.2 with rows := .ofList kept }) := by
  induction feeds generalizing loaded with
  | nil =>
      cases h
      exact fun entry h => absurd h List.not_mem_nil
  | cons first rest ih =>
      obtain ⟨kept, hkept, h⟩ := Except.bind_eq_ok.1 h
      obtain ⟨others, hothers, h⟩ := Except.bind_eq_ok.1 h
      obtain rfl := Except.pure_eq_ok.1 h
      refine List.forall_mem_cons.2
        ⟨⟨first, List.mem_cons_self, kept, hkept, rfl⟩, fun entry hentry => ?_⟩
      obtain ⟨found, hfound, hloaded⟩ := ih hothers entry hentry
      exact ⟨found, List.mem_cons_of_mem _ hfound, hloaded⟩

/-- An engine that is loaded has the loaded feeds. -/
theorem feeds_of_load (loaded : load contents made = .ok () e) : ∃ feeds,
    made.loadAll contents made.feeds.entries = .ok feeds ∧ e.feeds.entries = feeds ∧
      startViews (made.graph.selections.map Prod.snd) (made.setFeeds (.ofList feeds)) = .ok () e := by
  rw [load_eq] at loaded
  split at loaded
  · cases loaded
  next feeds hfeeds =>
    have hkeeps : Keeps Engine.feeds (startViews (made.graph.selections.map Prod.snd)) :=
      keeps_startViews (fun _ _ _ => rfl) _
    have hsame := hkeeps (made.setFeeds (.ofList feeds))
    rw [loaded] at hsame
    refine ⟨feeds, hfeeds, ?_, loaded⟩
    rw [show e.feeds = .ofList feeds from hsame]
    exact OrdMap.entries_ofList (m := made.feeds) (keys_of_map_cleared (cleared_loadAll hfeeds))

/-- Under the default policy, an engine that is loaded mirrors the collections. -/
theorem mirrors_of_load (reached : Reached plan query .undefined made)
    (loaded : load contents made = .ok () e) :
    ∀ entry ∈ e.feeds.entries, e.Mirrors contents entry.2 := by
  have hafter := reached.of_load loaded
  obtain ⟨feeds, hfeeds, hentries, -⟩ := feeds_of_load loaded
  intro entry hentry
  obtain ⟨first, hfirst, kept, hkept, rfl⟩ :=
    exists_of_mem_loadAll hfeeds entry (hentries ▸ hentry)
  obtain ⟨source, hbelongs⟩ := reached.belongs first hfirst
  obtain ⟨-, hkept⟩ := passing_eq_ok_iff.1 hkept
  obtain ⟨rfl, -⟩ := reached.made_for
  obtain ⟨hplan, -⟩ := hafter.made_for
  refine ⟨fun row =>
    made.evaluator.meetsAll [JoinPlan.alone first.2.body first.2.position row] first.2.filters,
    fun row => ?_, fun key => ?_⟩
  · have hplaced : Feed.Belongs { first.2 with rows := .ofList kept } e.plan source :=
      hplan ▸ ⟨hbelongs.place, hbelongs.origin, hbelongs.filters⟩
    rw [passes_of_belongs hafter.policy_eq hplaced]
    exact congrArg Except.ok (Evaluator.meetsAll_eq
      (fun _ hc => Body.readsOnly_of_pushable (hbelongs.filters ▸ hc))
      (hafter.policy_eq.trans reached.policy_eq.symm) (Evaluator.bound_eq hplan _ _))
  · rw [hkept]
    exact OrdMap.get?_ofList_filter _ _ key

end Loaded

/-! ## Views that are up to date -/

section Views

variable {plan : Plan} {query : BodyId} {policy : FieldPolicy} {e : Engine} {id : BodyId}

open Relation (ReflTransGen)

/-- The view that is there can be set again. -/
theorem setView_self {view : View} (hview : e.views.get? id = some view) : e.setView id view = e := by
  have hviews : e.views.insert id view = e.views := by
    refine OrdMap.ext_get? fun body => ?_
    rw [OrdMap.get?_insert_eq]
    split
    next hbody => rw [hbody, hview]
    · rfl
  rw [setView, hviews]

theorem rows_of_collection_setView (view : View) (depth : Nat) {source : Source}
    {ref : CollectionRef} (horigin : source.origin = .collection ref) (outer : List Frame) :
    ((e.setView id view).inputsWithin depth).rows source outer
      = (e.inputsWithin depth).rows source outer := by
  cases depth with
  | zero => rfl
  | succ depth =>
      simp only [inputsWithin, horigin]
      rfl

/-- However deep bodies are evaluated, those that are not made of a body read the same whatever its
view is. -/
theorem inputs_setView (built : e.plan.graph e.query = .ok e.graph) (view : View) (depth : Nat)
    {body : BodyId} (apart : ¬ReflTransGen e.plan.Holds body id) (outer : List Frame) :
    ((e.setView id view).inputsWithin depth).subquery body outer
        = (e.inputsWithin depth).subquery body outer ∧
      ∀ source, source.origin = .query body →
        ((e.setView id view).inputsWithin depth).rows source outer
          = (e.inputsWithin depth).rows source outer := by
  induction depth generalizing body outer with
  | zero => exact ⟨rfl, fun _ _ => rfl⟩
  | succ depth ih =>
      have hviews := e.get?_setView_of_ne (fun heq : body = id => apart (heq ▸ .refl)) view
      have hview : (e.setView id view).viewWithin ((e.setView id view).inputsWithin depth) body
          = e.viewWithin (e.inputsWithin depth) body := by
        have halike := @alike_of_below e built body
          ((e.setView id view).inputsWithin depth) (e.inputsWithin depth)
          (fun _ _ horigin outer => rows_of_collection_setView view depth horigin outer)
          (fun sub holds outer => ih (fun hreach => apart (.head holds hreach)) outer)
        change e.viewWithin ((e.setView id view).inputsWithin depth) body = _
        funext outer
        unfold viewWithin
        simp only [halike.rederive_eq]
      rw [inputsWithin_succ, inputsWithin_succ]
      refine ⟨?_, fun source horigin => ?_⟩
      · simp only [inputsStep, hviews, hview]
        rfl
      · simp only [inputsStep, horigin, hviews, hview]

/-- A body that is not made of another one is evaluated the same whatever the view of that is. -/
theorem alike_setView (built : e.plan.graph e.query = .ok e.graph) (view : View) {body : BodyId}
    (apart : ∀ sub, e.plan.Holds body sub → ¬ReflTransGen e.plan.Holds sub id) :
    (e.blueprint body).Alike (e.setView id view).evaluator e.evaluator :=
  alike_of_below built body
    (fun _ _ horigin outer => rows_of_collection_setView view _ horigin outer)
    fun sub holds outer => inputs_setView built view _ (apart sub holds) outer

/-- The views of some bodies are as they come out when they are derived from nothing. -/
def UpToDate (e : Engine) (ids : List BodyId) : Prop :=
  ∀ id ∈ ids, ∀ view, e.views.get? id = some view → view.Current (e.blueprint id) e.evaluator []

/-- The bodies that a listed body is made of are listed before all that comes after it. -/
theorem mem_before_of_reach (written : e.plan.Written) (built : e.plan.graph e.query = .ok e.graph)
    {before after : List BodyId} (horder : e.graph.selections.map Prod.snd = before ++ after)
    {body sub : BodyId} (hbody : body ∈ before) (reach : ReflTransGen e.plan.Holds body sub) :
    sub ∈ before := by
  induction reach with
  | refl => exact hbody
  | @tail body sub _ holds ih =>
      obtain ⟨first, last, rfl⟩ := List.append_of_mem ih
      have hreach : ReflTransGen e.plan.Holds e.query body :=
        Plan.reach_of_selections built (by rw [horder]; simp)
      rw [List.append_assoc] at horder
      exact List.mem_append_left _
        (Plan.held_before built written.sourcesApart written.exprsApart horder hreach holds)

/-- When a view is started, nothing that is listed up to it is made of bodies that are made of it. -/
theorem not_reach_started (written : e.plan.Written) (built : e.plan.graph e.query = .ok e.graph)
    {before after : List BodyId} (horder : e.graph.selections.map Prod.snd = before ++ id :: after)
    {body sub : BodyId} (hbody : body ∈ before ++ [id]) (holds : e.plan.Holds body sub) :
    ¬ReflTransGen e.plan.Holds sub id := by
  have hfresh : id ∉ before := by
    have hnodup := (rooted_of_graph built).nodup_selections
    rw [horder] at hnodup
    exact fun hid => (List.nodup_append.1 hnodup).2.2 id hid id List.mem_cons_self rfl
  have hsub : sub ∈ before := by
    rcases List.mem_append.1 hbody with hbody | hbody
    · exact mem_before_of_reach written built horder hbody (.single holds)
    · cases List.mem_singleton.1 hbody
      exact Plan.held_before built written.sourcesApart written.exprsApart horder
        (Plan.reach_of_selections built (by rw [horder]; simp)) holds
  exact fun hreach => hfresh (mem_before_of_reach written built horder hsub hreach)

/-- A view that is derived leaves those up to date that are not made of it. -/
theorem UpToDate.setView {before : List BodyId} (h : e.UpToDate before)
    (built : e.plan.graph e.query = .ok e.graph)
    (apart : ∀ body ∈ before ++ [id], ∀ sub, e.plan.Holds body sub →
      ¬ReflTransGen e.plan.Holds sub id) {changes : List Change} {view : View}
    (derived : (e.blueprint id).rederive e.evaluator [] (e.blueprint id).emptyView
      = .ok changes view) : (e.setView id view).UpToDate (before ++ [id]) := by
  intro body hbody view' hview'
  obtain ⟨told, hderived⟩ : view'.Current (e.blueprint body) e.evaluator [] := by
    by_cases hid : body = id
    · subst hid
      cases (e.get?_setView_self body view).symm.trans hview'
      exact ⟨changes, derived⟩
    · rw [get?_setView_of_ne hid] at hview'
      have hold := (List.mem_append.1 hbody).resolve_right fun h => hid (List.mem_singleton.1 h)
      exact h body hold view' hview'
  rw [← (alike_setView built view (apart body hbody)).rederive_eq []] at hderived
  exact ⟨told, hderived⟩

/-- Each view is derived after those that it is made of, so all that are started stay up to date. -/
theorem upToDate_startViews (written : e.plan.Written)
    (built : e.plan.graph e.query = .ok e.graph) {before after : List BodyId}
    (horder : e.graph.selections.map Prod.snd = before ++ after) (hbefore : e.UpToDate before)
    {e' : Engine} (run : startViews after e = .ok () e') : e'.UpToDate (before ++ after) := by
  induction after generalizing e before with
  | nil =>
      cases run
      rwa [List.append_nil]
  | cons id rest ih =>
      have hapart : ∀ body ∈ before ++ [id], ∀ sub, e.plan.Holds body sub →
          ¬ReflTransGen e.plan.Holds sub id :=
        fun _ hbody _ => not_reach_started written built horder hbody
      rw [List.append_cons] at horder ⊢
      rw [startViews_cons] at run
      split at run
      next hnone =>
        -- the body reads from outside, and has no view
        refine ih written built horder (fun body hbody view hview => ?_) run
        rcases List.mem_append.1 hbody with hbody | hbody
        · exact hbefore body hbody view hview
        · cases List.mem_singleton.1 hbody
          cases hnone.symm.trans hview
      next =>
        split at run
        · cases run
        next view derived =>
          exact ih (e := e.setView id view) written built horder
            (hbefore.setView built hapart derived) run

end Views

/-! ## Keys that count as changed -/

section Marked

variable {e : Engine} {changed : Changed} {id : BodyId}

/-- Keys count as changed in feeds only, and are told apart from those that are there. -/
structure MarksApart (e : Engine) (changed : Changed) : Prop where
  bodies : changed.bodies = []
  feeds : ∀ feed ∈ e.feeds.values, feed.rows.Apart
  sources : ∀ entry ∈ changed.sources, ∃ feed, e.feeds.get? entry.1 = some feed ∧
    Key.AllApart (feed.rows.keys ++ entry.2)

/-- A key that is listed at a position has changed in the feed of the source there. -/
theorem MarksApart.of_listed (h : e.MarksApart changed) {position : Nat} {source : Source}
    (hsource : (e.plan.body id).sources[position]? = some source) {key : Key}
    (hkey : key ∈ listedAt (e.changedPositions changed id) position) :
    ∃ ref keys, source.origin = .collection ref ∧ changed.sources.lookup source.id = some keys ∧
      key ∈ keys := by
  obtain ⟨keys, hmem, hkey⟩ := mem_listedAt.1 hkey
  obtain ⟨⟨source', position'⟩, hsource', hentry⟩ := List.mem_filterMap.1 hmem
  rw [List.mk_mem_zipIdx_iff_getElem?] at hsource'
  dsimp only at hentry
  obtain ⟨keys', hkeys, hsame⟩ := Option.map_eq_some_iff.1 hentry
  cases hsame
  cases hsource.symm.trans hsource'
  cases horigin : source.origin with
  | collection ref =>
      rw [horigin] at hkeys
      exact ⟨ref, keys, rfl, hkeys, hkey⟩
  | query sub =>
      rw [horigin, h.bodies] at hkeys
      cases hkeys

/-- The rows of a source that reads a collection are those of its feed. -/
theorem rows_of_feed {source : Source} {ref : CollectionRef}
    (horigin : source.origin = .collection ref) {feed : Feed}
    (hfeed : e.feeds.get? source.id = some feed) {depth : Nat} {outer : List Frame} {rows : Rows}
    (hrows : (e.inputsWithin depth).rows source outer = .ok rows) : rows = feed.rows := by
  cases depth with
  | zero => cases hrows
  | succ depth =>
      simp only [inputsWithin, horigin, hfeed] at hrows
      cases hrows
      rfl

/-- The keys of a source and those that are listed at its position are told apart. -/
theorem MarksApart.apart_listed (h : e.MarksApart changed) (kept : e.Kept) {position : Nat}
    {source : Source} (hsource : (e.plan.body id).sources[position]? = some source) {rows : Rows}
    (hrows : e.evaluator.inputs.rows source [] = .ok rows) :
    Key.AllApart (rows.keys ++ listedAt (e.changedPositions changed id) position) := by
  cases hlisted : listedAt (e.changedPositions changed id) position with
  | nil =>
      rw [List.append_nil]
      exact kept.apart_of_rows h.feeds hrows
  | cons key rest =>
      rw [← hlisted]
      obtain ⟨ref, keys, horigin, hkeys, -⟩ :=
        h.of_listed hsource (hlisted ▸ List.mem_cons_self : key ∈ _)
      obtain ⟨feed, hfeed, hapart⟩ := h.sources _ (mem_of_lookup hkeys)
      obtain rfl := rows_of_feed horigin hfeed hrows
      refine hapart.subset (List.append_subset.2 ⟨List.subset_append_left _ _, fun k hk =>
        List.mem_append_right _ ?_⟩)
      obtain ⟨-, keys', -, hkeys', hk⟩ := h.of_listed hsource hk
      cases hkeys.symm.trans hkeys'
      exact hk

/-- To follow keys that count as changed while no row has is to follow changes of the same rows. -/
theorem MarksApart.changes (h : e.MarksApart changed) (kept : e.Kept)
    (readable : (e.blueprint id).joins.Readable e.evaluator) :
    (e.blueprint id).Changes e.evaluator e.evaluator (e.changedPositions changed id) where
  old := readable
  new := readable
  tries _ := rfl
  rows position step hstep := by
    have hread := readable.read step (List.mem_of_getElem? hstep)
    obtain ⟨source, hsource, rfl⟩ := Option.map_eq_some_iff.1 (List.getElem?_map ▸ hstep)
    exact ⟨fun _ _ => rfl, h.apart_listed kept hsource hread⟩

/-- A view that is up to date stays as it is. -/
theorem MarksApart.updateView (h : e.MarksApart changed) (kept : e.Kept) {view : View}
    (current : view.Current (e.blueprint id) e.evaluator []) :
    e.updateView changed id view = .ok [] view := by
  unfold Engine.updateView
  dsimp only
  split
  next incremental =>
    split
    · rfl
    · exact current.follow
        (h.changes kept (current.readable (Plan.inner_of_incremental incremental)))
  · exact current.rederive

theorem MarksApart.updateViews (h : e.MarksApart changed) (kept : e.Kept) {ids : List BodyId}
    (current : e.UpToDate ids) : Engine.updateViews changed [] ids e = .ok [] e := by
  induction ids with
  | nil => rfl
  | cons id rest ih =>
      obtain ⟨hid, hrest⟩ := List.forall_mem_cons.1 current
      rw [updateViews_cons]
      split
      · exact ih hrest
      next view hview =>
        rw [h.updateView kept (hid view hview)]
        dsimp only
        rw [setView_self hview, ih hrest]
        simp

end Marked

/-! ## Redelivery -/

variable {plan : Plan} {query : BodyId} {policy : FieldPolicy} {e made : Engine}
  {contents : CollectionId → Rows}

/-- After a load all views are up to date. -/
theorem upToDate_load (written : plan.Written) (reached : Reached plan query policy made)
    (loaded : load contents made = .ok () e) : e.UpToDate (e.graph.selections.map Prod.snd) := by
  obtain ⟨feeds, -, -, hstart⟩ := feeds_of_load loaded
  have hgraph : e.graph = made.graph := by
    have hkeeps := keepsSettings_load contents made
    rw [loaded] at hkeeps
    exact congrArg (fun settings => settings.2.1) hkeeps
  obtain ⟨rfl, rfl⟩ := reached.made_for
  rw [hgraph]
  have hnone : (made.setFeeds (.ofList feeds)).UpToDate [] := fun _ h => absurd h List.not_mem_nil
  exact upToDate_startViews (e := made.setFeeds (.ofList feeds)) written reached.regular.built rfl
    hnone hstart

/-- The bodies that are brought up to date are listed. -/
theorem affectedBodies_subset (e : Engine) (changed : List NodeId) :
    e.affectedBodies changed ⊆ e.graph.selections.map Prod.snd := by
  intro id hid
  obtain ⟨k, hk, hkind⟩ := List.mem_filterMap.1 hid
  refine Graph.lists_iff.2 ⟨k, (List.mem_filter.1 hk).1, ?_⟩
  split at hkind
  next hselects =>
    cases hkind
    exact hselects
  · cases hkind

/-- The keys of a collection, and those that a batch writes to it. -/
def keysWith (contents : CollectionId → Rows) (collection : CollectionId) (batch : List Change)
    (id : CollectionId) : List Key :=
  (contents id).keys ++ if id = collection then batch.map Change.key else []

/-- Under the default policy, an engine that was loaded when its collection had already taken in a
batch ignores the batch: nothing fails, no changes are told, and the engine stays as it is, with its
output and the rows of its feeds. No two keys of a collection may become one as parts of other keys,
which goes for those that the batch writes as well, whether they are there afterwards or not. -/
theorem seen_batch_ignored (written : plan.Written) (reached : Reached plan query .undefined made)
    (loaded : load contents made = .ok () e)
    {collection : CollectionId} {c c' : Collection} {writes : List Write} {batch : List Change}
    (committed : c.apply writes = .ok (c', batch)) (seen : contents collection = c'.rows)
    (apart : ∀ id, Key.AllApart (keysWith contents collection batch id)) :
    apply collection batch e = .ok [] e := by
  have hafter := reached.of_load loaded
  have hmirrors := mirrors_of_load reached loaded
  have hreplay : Change.replay batch c.rows = contents collection :=
    (Collection.leads_of_apply committed).replay_eq.trans seen.symm
  obtain ⟨marked, hmarked, hsame, hkeys⟩ := writeFeeds_seen hreplay hmirrors
  have hset : e.setWritten marked = e := by
    rw [setWritten, hsame, OrdMap.ofList_entries]
    rfl
  rw [apply_eq, hmarked]
  dsimp only
  rw [hset]
  split
  · rfl
  · have hmarks : e.MarksApart
        { sources := (touchedFeeds marked).map fun entry => (entry.1, entry.2.2) } := by
      refine ⟨rfl, fun feed hfeed => ?_, fun entry hentry => ?_⟩
      · obtain ⟨entry, hentry, rfl⟩ := List.mem_map.1 hfeed
        exact (apart _).subset fun key hkey =>
          List.mem_append_left _ ((hmirrors entry hentry).keys_subset hkey)
      · obtain ⟨⟨id, feed, keys⟩, hmem, rfl⟩ := List.mem_map.1 hentry
        have hmem := (List.mem_filter.1 hmem).1
        have hfeed : (id, feed) ∈ e.feeds.entries :=
          hsame ▸ List.mem_map_of_mem (f := fun entry => (entry.1, entry.2.1)) hmem
        refine ⟨feed, OrdMap.get?_eq_some_iff.2 hfeed, (apart feed.collection.id).subset ?_⟩
        refine List.append_subset.2 ⟨fun key hkey => ?_, fun key hkey => ?_⟩
        · exact List.mem_append_left _ ((hmirrors _ hfeed).keys_subset hkey)
        · obtain ⟨hcollection, hkey⟩ := hkeys _ hmem key hkey
          refine List.mem_append_right _ ?_
          rwa [if_pos hcollection]
    exact hmarks.updateViews hafter.kept fun id hid =>
      upToDate_load written reached loaded id (e.affectedBodies_subset _ hid)

/-- A row with a value. -/
def valued (value : Int64) : Row :=
  .cons "x" (.int value) .nil

/-- A collection of rows with values, by their numbers. -/
def valuesOf (values : List (Int64 × Int64)) : Collection :=
  ⟨"c", none, .ofList (values.map fun entry => (.ofScalar (.int entry.1), valued entry.2))⟩

/-- A row gets another value and then that of a row that comes with it; a third one comes and
goes. -/
def recount : List Write × List Change :=
  ([.insert (.ofScalar (.int 2)) (valued 8), .update (.ofScalar (.int 1)) (valued 9),
      .insert (.ofScalar (.int 3)) (valued 8), .delete (.ofScalar (.int 3)),
      .update (.ofScalar (.int 1)) (valued 8)],
    [⟨.insert, .ofScalar (.int 2), valued 8⟩, ⟨.update, .ofScalar (.int 1), valued 9⟩,
      ⟨.insert, .ofScalar (.int 3), valued 8⟩, ⟨.delete, .ofScalar (.int 3), valued 8⟩,
      ⟨.update, .ofScalar (.int 1), valued 8⟩])

/-- Where the rows are counted already as they are after these writes, the counts stay. -/
theorem seen_batch_ignored_tallies :
    ∃ made e, (valuesOf [(1, 7)]).apply recount.1 = .ok (valuesOf [(1, 8), (2, 8)], recount.2) ∧
      ofQuery Plan.tallies 0 .undefined = .ok made ∧
      load (fun _ => (valuesOf [(1, 8), (2, 8)]).rows) made = .ok () e ∧
      e.snapshot = [(⟨[.int 8]⟩, .cons "n" (.int 2) (.cons "x" (.int 8) .nil))] ∧
      apply 0 recount.2 e = .ok [] e := by
  obtain ⟨made, e, changes, e', hmade, hload, happly, houtput⟩ := of_outputAfter
    (show outputAfter Plan.tallies (fun _ => (valuesOf [(1, 8), (2, 8)]).rows) recount.2
      = some [(⟨[.int 8]⟩, .cons "n" (.int 2) (.cons "x" (.int 8) .nil))] by decide +kernel)
  have hapart : Key.AllApart ((valuesOf [(1, 8), (2, 8)]).rows.keys ++ recount.2.map Change.key) := by
    unfold Key.AllApart
    decide +kernel
  have committed :
      (valuesOf [(1, 7)]).apply recount.1 = .ok (valuesOf [(1, 8), (2, 8)], recount.2) := rfl
  have hseen : apply 0 recount.2 e = .ok [] e :=
    seen_batch_ignored Plan.tallies_written (.made hmade) hload committed rfl fun id =>
      hapart.subset (List.append_subset.2 ⟨List.subset_append_left _ _, fun k hk => by
        split at hk
        · exact List.mem_append_right _ hk
        · cases hk⟩)
  cases happly.symm.trans hseen
  exact ⟨made, e, committed, hmade, hload, houtput, hseen⟩

end Engine

end LiveQuery
