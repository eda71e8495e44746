import LiveQuery.Proofs.Engine.Provision
import LiveQuery.Proofs.Engine.Pushdown
import LiveQuery.Proofs.Engine.Strictness
import LiveQuery.Proofs.Plan.Course

/-!
# Queries whose feeds let all rows through

A query could as well be evaluated over all rows of its collections. A condition is then evaluated
for the tuples that come to it, and cannot fail for a row that joins nothing, or that an earlier
part of the condition rules out. A feed holds each row of its collection against its filters. So
with filters an evaluation that succeeds without them may fail, but at a filter only; and where no
filter fails, it puts out the same.

**Results.** `Engine.filters_exact`: what the filters of feeds do to an evaluation that succeeds
without them. `Engine.filters_fail`: they make a strict one fail.
-/

namespace LiveQuery

/-! ## Bodies -/

theorem Except.Refines.orElse_eq {ε α : Type} {x y : Except ε α} (h : Except.Refines x y) :
    (x <|> y) = y := by
  cases x with
  | error error => rfl
  | ok a => exact (h a rfl).symm

/-- What is read of queries by one evaluation, or else by another, with the rows of collections. -/
def Inputs.orElse (inputs inputs' collections : Inputs) : Inputs where
  rows := fun source outer =>
    match source.origin with
    | .collection _ => collections.rows source outer
    | .query _ => inputs.rows source outer <|> inputs'.rows source outer
  subquery := fun body outer => inputs.subquery body outer <|> inputs'.subquery body outer

/-- A view is made of the same tuples over the rows that feeds let through. -/
theorem Blueprint.refines_rederive_pushed {ev ev' seen : Evaluator} {b : Blueprint} {body : BodyId}
    (h : JoinPlan.Pushed ev ev' seen body) (hjoins : b.joins = ev.plan.joinPlan body)
    (outer : List Frame) : Upkeep.Refines (b.rederive ev outer) (b.rederive ev' outer) := by
  have hsees := (h.agrees b.occurring).seesWithin outer b.joins.body
  refine b.refines_rederive_of outer ?_ (fun _ _ => ?_) fun _ => ?_
  · rw [hjoins]
    exact fun _ => h.enumerate_eq
  · rw [replaceTuples_eq hsees]
    exact .refl _
  · rw [refresh_eq hsees]
    exact .refl _

theorem Except.Refines.orElse {ε α : Type} (x y : Except ε α) : Except.Refines x (x <|> y) := by
  rintro a rfl
  rfl

namespace Engine

/-- The rows that feeds hold for a source. -/
def rowsIn (feeds : OrdMap SourceId Feed) (source : Source) : Rows :=
  ((feeds.get? source.id).map Feed.rows).getD OrdMap.empty

/-- An engine whose feeds hold what filters let through of the rows that other feeds hold. -/
structure Filters (e : Engine) (full : OrdMap SourceId Feed) (seen : Evaluator) : Prop where
  built : e.plan.graph e.query = .ok e.graph
  plan : e.plan = seen.plan
  policy : e.policy = seen.policy
  names : ∀ body, Relation.ReflTransGen e.plan.Holds e.query body →
    ((e.plan.body body).sources.map Source.name).Nodup
  rows : ∀ body, Relation.ReflTransGen e.plan.Holds e.query body → ∀ position source ref,
    (e.plan.body body).sources[position]? = some source → source.origin = .collection ref →
      (rowsIn e.feeds source).entries
        = (rowsIn full source).entries.filter (JoinPlan.lets seen body position source)

variable {e : Engine} {full : OrdMap SourceId Feed} {seen : Evaluator} {body : BodyId}

namespace Filters

theorem setView (h : e.Filters full seen) (id : BodyId) (view : View) :
    (e.setView id view).Filters full seen :=
  ⟨h.built, h.plan, h.policy, h.names, h.rows⟩

/-- The view of a body comes out the same if all that it is made of does. -/
theorem refines_rederive (h : e.Filters full seen)
    (reach : Relation.ReflTransGen e.plan.Holds e.query body) {inputs inputs' : Inputs}
    (hbelow : ∀ sub, e.plan.Holds body sub → ∀ outer,
      Except.Refines ((e.setFeeds full).viewWithin inputs sub outer) (e.viewWithin inputs' sub outer))
    (outer : List Frame) :
    Upkeep.Refines
      ((e.blueprint body).rederive
        { plan := e.plan, policy := e.policy, inputs := (e.setFeeds full).inputsStep inputs } outer)
      ((e.blueprint body).rederive
        { plan := e.plan, policy := e.policy, inputs := e.inputsStep inputs' } outer) := by
  let all := (e.setFeeds full).inputsStep inputs
  let filtered := e.inputsStep inputs'
  -- first what is read of other bodies is exchanged, then the rows of collections
  let between := all.orElse filtered all
  let after := all.orElse filtered filtered
  have hread (sub : BodyId) (hholds : e.plan.Holds body sub) (outer : List Frame) :=
    refines_inputsStep (hbelow sub hholds) rfl rfl outer
  have hfirst : Evaluator.Refines ⟨e.plan, e.policy, all⟩ ⟨e.plan, e.policy, between⟩ := by
    refine ⟨rfl, fun _ => .refl _, fun source outer => ?_, fun _ _ => .orElse _ _⟩
    cases horigin : source.origin with
    | collection ref =>
        simp only [between, Inputs.orElse, horigin]
        exact .refl _
    | query sub =>
        simp only [between, Inputs.orElse, horigin]
        exact .orElse _ _
  have hpushed : JoinPlan.Pushed ⟨e.plan, e.policy, between⟩ ⟨e.plan, e.policy, after⟩ seen body :=
    { plan := h.plan
      policy := h.policy
      names := h.names body reach
      agrees := fun _ => ⟨rfl, rfl, fun _ _ _ _ => rfl⟩
      collections := fun position source ref hsource horigin =>
        ⟨rowsIn full source, rowsIn e.feeds source,
          fun _ => by simp only [between, Inputs.orElse, horigin, all, inputsStep]; rfl,
          fun _ => by simp only [after, Inputs.orElse, horigin, filtered, inputsStep]; rfl,
          h.rows body reach position source ref hsource horigin⟩
      queries := fun source sub horigin => by
        funext frames
        simp only [between, after, Inputs.orElse, horigin] }
  have halike : (e.blueprint body).Alike ⟨e.plan, e.policy, after⟩ ⟨e.plan, e.policy, filtered⟩ := by
    refine alike_of_below h.built body (fun source ref horigin outer => ?_) fun sub hholds outer =>
      ⟨(hread sub hholds outer).1.orElse_eq, fun source horigin => ?_⟩
    · simp only [after, Inputs.orElse, horigin]
    · simp only [after, Inputs.orElse, horigin]
      exact ((hread sub hholds outer).2 source horigin).orElse_eq
  intro view changes view' hrun
  rw [← halike.rederive_eq outer]
  exact Blueprint.refines_rederive_pushed hpushed rfl outer _ _ _
    (Blueprint.refines_rederive hfirst (e.blueprint body) outer _ _ _ hrun)

/-- However deep bodies are evaluated, the views of those below the query come out the same. -/
theorem refines_within (h : e.Filters full seen) (depth : Nat)
    (reach : Relation.ReflTransGen e.plan.Holds e.query body) (outer : List Frame) :
    Upkeep.Refines
      ((e.blueprint body).rederive
        { plan := e.plan, policy := e.policy, inputs := (e.setFeeds full).inputsWithin depth } outer)
      ((e.blueprint body).rederive
        { plan := e.plan, policy := e.policy, inputs := e.inputsWithin depth } outer) := by
  induction depth generalizing body outer with
  | zero => exact .refl _
  | succ depth ih =>
      exact h.refines_rederive reach (fun sub hholds outer =>
        refines_viewWithin rfl (ih (reach.tail hholds) outer)) outer

theorem startViews (h : e.Filters full seen) {ids : List BodyId}
    (reach : ∀ id ∈ ids, Relation.ReflTransGen e.plan.Holds e.query id) {after : Engine}
    (hrun : startViews ids (e.setFeeds full) = .ok () after) :
    Engine.startViews ids e = .ok () (after.setFeeds e.feeds) := by
  induction ids generalizing e with
  | nil =>
      cases hrun
      rfl
  | cons id rest ih =>
      obtain ⟨hid, hrest⟩ := List.forall_mem_cons.1 reach
      rw [startViews_cons] at hrun ⊢
      have hviews : (e.setFeeds full).views.get? id = e.views.get? id := rfl
      rw [hviews] at hrun
      cases hview : e.views.get? id with
      | none =>
          rw [hview] at hrun
          exact ih h hrest hrun
      | some _ =>
          rw [hview] at hrun
          dsimp only at hrun ⊢
          split at hrun
          · cases hrun
          next changes view hfull =>
            have hsame : (e.blueprint id).rederive e.evaluator [] (e.blueprint id).emptyView
                = .ok changes view := h.refines_within e.plan.depth hid [] _ _ _ hfull
            simp only [hsame]
            exact ih (h.setView id view) hrest hrun

end Filters

/-! ## Loading -/

section Loading

variable {contents : CollectionId → Rows} {feeds loaded : List (SourceId × Feed)}
variable {error : EvalError}

theorem exists_passes_of_passing {feed : Feed} {entries : List (Key × Row)}
    (h : e.passing feed entries = .error error) :
    ∃ entry ∈ entries, e.passes feed entry.2 = .error error := by
  induction entries with
  | nil => cases h
  | cons entry rest ih =>
      rcases Except.bind_eq_error.1 h with h | ⟨_, _, h⟩
      · exact ⟨entry, List.mem_cons_self, h⟩
      · rcases Except.bind_eq_error.1 h with h | ⟨_, _, h⟩
        · obtain ⟨found, hfound, h⟩ := ih h
          exact ⟨found, List.mem_cons_of_mem _ hfound, h⟩
        · cases h

/-- Feeds that cannot be loaded have a filter that fails for a row. -/
theorem exists_passes_of_loadAll (h : e.loadAll contents feeds = .error error) :
    ∃ entry ∈ feeds, ∃ row ∈ (contents entry.2.collection.id).entries,
      e.passes entry.2 row.2 = .error error := by
  induction feeds with
  | nil => cases h
  | cons entry rest ih =>
      rcases Except.bind_eq_error.1 h with h | ⟨_, _, h⟩
      · exact ⟨entry, List.mem_cons_self, exists_passes_of_passing h⟩
      · rcases Except.bind_eq_error.1 h with h | ⟨_, _, h⟩
        · obtain ⟨found, hfound, h⟩ := ih h
          exact ⟨found, List.mem_cons_of_mem _ hfound, h⟩
        · cases h

theorem exists_mem_of_loadAll (h : e.loadAll contents feeds = .ok loaded) :
    ∀ entry ∈ feeds, ∃ kept,
      e.passing entry.2 (contents entry.2.collection.id).entries = .ok kept ∧
        (entry.1, { entry.2 with rows := .ofList kept }) ∈ loaded := by
  induction feeds generalizing loaded with
  | nil => exact fun entry h => absurd h List.not_mem_nil
  | cons first rest ih =>
      obtain ⟨kept, hkept, h⟩ := Except.bind_eq_ok.1 h
      obtain ⟨others, hothers, h⟩ := Except.bind_eq_ok.1 h
      obtain rfl := Except.pure_eq_ok.1 h
      refine List.forall_mem_cons.2 ⟨⟨kept, hkept, List.mem_cons_self⟩, fun entry hentry => ?_⟩
      obtain ⟨kept, hkept, hmem⟩ := ih hothers entry hentry
      exact ⟨kept, hkept, List.mem_cons_of_mem _ hmem⟩

/-- Each row that a feed reads can be held against its filters. -/
def Screens (e : Engine) (contents : CollectionId → Rows) : Prop :=
  ∀ entry ∈ e.feeds.entries, ∀ row ∈ (contents entry.2.collection.id).entries,
    ∃ met, e.passes entry.2 row.2 = .ok met

theorem screens_iff :
    e.Screens contents ↔ ∃ loaded, e.loadAll contents e.feeds.entries = .ok loaded := by
  constructor
  · intro h
    cases hload : e.loadAll contents e.feeds.entries with
    | ok loaded => exact ⟨loaded, rfl⟩
    | error error =>
        obtain ⟨entry, hentry, row, hrow, herror⟩ := exists_passes_of_loadAll hload
        obtain ⟨met, hmet⟩ := h entry hentry row hrow
        cases herror.symm.trans hmet
  · rintro ⟨loaded, hload⟩ entry hentry
    obtain ⟨kept, hkept, -⟩ := exists_mem_of_loadAll hload entry hentry
    exact (passing_eq_ok_iff.1 hkept).1

/-- The feed of a source is loaded with the rows that meet its filters. -/
theorem rowsIn_loaded (h : e.loadAll contents feeds = .ok loaded)
    (hnodup : (feeds.map Prod.fst).Nodup) {entry : SourceId × Feed} (hentry : entry ∈ feeds)
    {source : Source} (hid : entry.1 = source.id) :
    (rowsIn (.ofList loaded) source).entries
      = (contents entry.2.collection.id).entries.filter fun row =>
        e.evaluator.meetsAll [JoinPlan.alone entry.2.body entry.2.position row.2]
          entry.2.filters := by
  obtain ⟨kept, hkept, hmem⟩ := exists_mem_of_loadAll h entry hentry
  obtain ⟨_, rfl⟩ := passing_eq_ok_iff.1 hkept
  rw [← keys_of_map_cleared (cleared_loadAll h)] at hnodup
  rw [rowsIn, ← hid, OrdMap.get?_ofList_of_mem hnodup hmem]
  exact OrdMap.entries_ofList (m := ⟨_, (contents entry.2.collection.id).increasing.filter _⟩) rfl

theorem rowsIn_loaded_of_not_mem (h : e.loadAll contents feeds = .ok loaded) {source : Source}
    (hid : source.id ∉ feeds.map Prod.fst) : rowsIn (.ofList loaded) source = .empty := by
  rw [← keys_of_map_cleared (cleared_loadAll h)] at hid
  rw [rowsIn, OrdMap.get?_ofList_of_not_mem hid]
  rfl

end Loading

/-- The engine with feeds that let all rows through. -/
def unfiltered (e : Engine) : Engine :=
  e.setFeeds (.ofList (e.feeds.entries.map fun entry => (entry.1, { entry.2 with filters := [] })))

theorem entries_unfiltered (e : Engine) :
    e.unfiltered.feeds.entries
      = e.feeds.entries.map fun entry => (entry.1, { entry.2 with filters := [] }) :=
  OrdMap.entries_ofList (m := e.feeds) (by rw [List.map_map]; rfl)

end Engine

/-- The output of a query over given contents of the collections, with feeds that let all rows
through. -/
def evaluateUnfiltered (plan : Plan) (query : BodyId) (policy : FieldPolicy)
    (contents : CollectionId → Rows) : Except QueryError (List (Key × Row)) :=
  match Engine.ofQuery plan query policy with
  | .error error => .error (.build error)
  | .ok engine =>
      match Engine.load contents engine.unfiltered with
      | .error error _ => .error (.eval error)
      | .ok _ engine => .ok engine.snapshot

namespace Engine

variable {e : Engine} {plan : Plan} {query : BodyId} {policy : FieldPolicy}
variable {contents : CollectionId → Rows} {full loaded : List (SourceId × Feed)}

theorem filters_of_load (written : plan.Written)
    (names : ∀ body, Relation.ReflTransGen plan.Holds query body →
      ((plan.body body).sources.map Source.name).Nodup)
    (made : ofQuery plan query policy = .ok e)
    (hfull : e.unfiltered.loadAll contents e.unfiltered.feeds.entries = .ok full)
    (hloaded : e.loadAll contents e.feeds.entries = .ok loaded) :
    (e.setFeeds (.ofList loaded)).Filters (.ofList full) e.evaluator := by
  have hfeeds := feeds_ofQuery made
  obtain ⟨rfl, rfl⟩ := (Reached.made made).made_for
  refine ⟨(regular_ofQuery made).built, rfl, rfl, names,
    fun body reach position source ref hsource horigin => ?_⟩
  change (rowsIn (.ofList loaded) source).entries = _
  have hkeys : e.unfiltered.feeds.entries.map Prod.fst = e.feeds.entries.map Prod.fst := by
    rw [entries_unfiltered, List.map_map]
    rfl
  by_cases hid : source.id ∈ e.feeds.entries.map Prod.fst
  · obtain ⟨entry, hentry, hid⟩ := List.mem_map.1 hid
    obtain ⟨_, source', hid', hbelongs⟩ := hfeeds entry hentry
    -- the feed is that of this source, not of another one with its number
    obtain ⟨rfl, rfl⟩ := written.source_place hbelongs.place hsource (hid'.trans hid)
    obtain rfl := Option.some.inj (hbelongs.place.symm.trans hsource)
    have hentry' : (entry.1, { entry.2 with filters := [] }) ∈ e.unfiltered.feeds.entries := by
      rw [entries_unfiltered]
      exact List.mem_map_of_mem (f := fun entry => (entry.1, { entry.2 with filters := [] })) hentry
    rw [rowsIn_loaded hloaded e.feeds.nodup_keys hentry hid,
      rowsIn_loaded hfull (OrdMap.nodup_keys _) hentry' hid]
    have hall : (contents entry.2.collection.id).entries.filter (fun row =>
        e.unfiltered.evaluator.meetsAll [JoinPlan.alone entry.2.body entry.2.position row.2] [])
          = (contents entry.2.collection.id).entries :=
      List.filter_eq_self.2 fun _ _ => rfl
    rw [hall]
    exact List.filter_congr fun row _ => (lets_of_belongs e.evaluator hbelongs row).symm
  · rw [rowsIn_loaded_of_not_mem hloaded hid, rowsIn_loaded_of_not_mem hfull (hkeys ▸ hid)]
    rfl

theorem reach_of_feeds (made : ofQuery plan query policy = .ok e) {id : BodyId}
    (h : id ∈ e.graph.selections.map Prod.snd) : Relation.ReflTransGen plan.Holds query id := by
  have haccepted := (regular_ofQuery made).built
  obtain ⟨rfl, rfl⟩ := (Reached.made made).made_for
  exact Plan.reach_of_selections haccepted h

/-- Where the feeds can be loaded, their filters make no difference to the views. -/
theorem load_of_unfiltered (written : plan.Written)
    (names : ∀ body, Relation.ReflTransGen plan.Holds query body →
      ((plan.body body).sources.map Source.name).Nodup)
    (made : ofQuery plan query policy = .ok e) {after : Engine}
    (hrun : load contents e.unfiltered = .ok () after)
    (hload : e.loadAll contents e.feeds.entries = .ok loaded) :
    load contents e = .ok () (after.setFeeds (.ofList loaded)) := by
  rw [load_eq] at hrun ⊢
  rw [hload]
  split at hrun
  · cases hrun
  next full hfull =>
    have hfilters := filters_of_load written names made hfull hload
    have hreach : ∀ id ∈ e.graph.selections.map Prod.snd,
        Relation.ReflTransGen plan.Holds query id := fun _ => reach_of_feeds made
    obtain ⟨rfl, rfl⟩ := (Reached.made made).made_for
    exact hfilters.startViews hreach hrun

/-- What an evaluation without the filters of feeds puts out, one with them puts out just if each
filter can be evaluated for all rows that it is held against. Else it fails at one of them, which
can be under the strict policy only. -/
theorem filters_exact (written : plan.Written)
    (names : ∀ body, Relation.ReflTransGen plan.Holds query body →
      ((plan.body body).sources.map Source.name).Nodup)
    (made : ofQuery plan query policy = .ok e) {rows : List (Key × Row)}
    (h : evaluateUnfiltered plan query policy contents = .ok rows) :
    (evaluate plan query policy contents = .ok rows ↔ e.Screens contents) ∧
    (¬ e.Screens contents → ∃ entry ∈ e.feeds.entries,
      ∃ row ∈ (contents entry.2.collection.id).entries, ∃ error,
        e.passes entry.2 row.2 = .error error ∧
          evaluate plan query policy contents = .error (.eval error)) ∧
    (policy = .undefined → e.Screens contents) := by
  have hloads {loaded : List (SourceId × Feed)}
      (hload : e.loadAll contents e.feeds.entries = .ok loaded) :
      evaluate plan query policy contents = .ok rows := by
    unfold evaluateUnfiltered at h
    unfold evaluate
    rw [made] at h ⊢
    dsimp only at h ⊢
    split at h
    · cases h
    next after hrun =>
      rw [load_of_unfiltered written names made hrun hload]
      exact h
  have hfails {error : EvalError} (hload : e.loadAll contents e.feeds.entries = .error error) :
      evaluate plan query policy contents = .error (.eval error) := by
    unfold evaluate
    rw [made]
    dsimp only
    rw [load_eq, hload]
  refine ⟨⟨fun hevaluate => ?_, fun hscreens => ?_⟩, fun hnot => ?_, fun hundefined => ?_⟩
  · cases hload : e.loadAll contents e.feeds.entries with
    | ok loaded => exact screens_iff.2 ⟨loaded, hload⟩
    | error error => cases (hfails hload).symm.trans hevaluate
  · obtain ⟨loaded, hload⟩ := screens_iff.1 hscreens
    exact hloads hload
  · cases hload : e.loadAll contents e.feeds.entries with
    | ok loaded => exact absurd (screens_iff.2 ⟨loaded, hload⟩) hnot
    | error error =>
        obtain ⟨entry, hentry, row, hrow, herror⟩ := exists_passes_of_loadAll hload
        exact ⟨entry, hentry, row, hrow, error, herror, hfails hload⟩
  · intro entry hentry row _
    obtain ⟨hbody, source, _, hbelongs⟩ := feeds_ofQuery made entry hentry
    have hpolicy : e.policy = .undefined := (ofQuery_under made policy).2.trans hundefined
    have hnames := names _ (reach_of_feeds made hbody)
    obtain ⟨rfl, rfl⟩ := (Reached.made made).made_for
    exact ⟨_, passes_eq_ok hpolicy hbelongs hnames row.2⟩

/-- The rows of `c` that have a five, each with the rows of `d` with its key. -/
def fives : Plan :=
  ({} : Plan).write
    [[.bind "p" (.collection ⟨0, "c"⟩) none, .bind "r" (.collection ⟨1, "d"⟩) (some .inner),
      .onFields ⟨0, ⟨"r", []⟩⟩ [("k", .ref ⟨0, ⟨"p", ["k"]⟩⟩)],
      .onFields ⟨0, ⟨"p", []⟩⟩ [("n", .value (.int 5))],
      .select [.field "n" (.ref ⟨0, ⟨"p", ["n"]⟩⟩)]]]

theorem fives_written : fives.Written :=
  Plan.written_write ⟨[], .first⟩ (by decide +kernel)

theorem fives_names (body : BodyId) : ((fives.body body).sources.map Source.name).Nodup := by
  have hall : ∀ body ∈ fives.bodies, (body.sources.map Source.name).Nodup := by decide +kernel
  rcases fives.body_mem_or_empty body with hmem | hempty
  · exact hall _ hmem
  · rw [hempty]
    exact .nil

/-- A row of `c` that joins the row of `d`, and one that does not, with other fields than its key. -/
def oneJoins (others : Row) (id : CollectionId) : Rows :=
  if id = 0 then
    .ofList [(.ofScalar (.int 1), .cons "k" (.int 1) (.cons "n" (.int 5) .nil)),
      (.ofScalar (.int 2), .cons "k" (.int 2) others)]
  else .ofList [(.ofScalar (.int 1), .cons "k" (.int 1) .nil)]

/-- Where the row that joins nothing has the field that is filtered by, nothing fails. -/
theorem filters_exact_fives :
    ∃ e rows, ofQuery fives 0 .strict = .ok e ∧ rows.map Prod.fst = [⟨[.int 1, .int 1]⟩] ∧
      evaluateUnfiltered fives 0 .strict (oneJoins (.cons "n" (.int 7) .nil)) = .ok rows ∧
      evaluate fives 0 .strict (oneJoins (.cons "n" (.int 7) .nil)) = .ok rows ∧
      e.Screens (oneJoins (.cons "n" (.int 7) .nil)) := by
  obtain ⟨e, made, -⟩ := Except.exists_of_toOption
    (show (ofQuery fives 0 .strict).toOption.map (fun _ => ()) = some () by decide +kernel)
  obtain ⟨rows, hall, hkeys⟩ := Except.exists_of_toOption
    (show (evaluateUnfiltered fives 0 .strict (oneJoins (.cons "n" (.int 7) .nil))).toOption.map
      (List.map Prod.fst) = some [⟨[.int 1, .int 1]⟩] by decide +kernel)
  have hsame : evaluate fives 0 .strict (oneJoins (.cons "n" (.int 7) .nil))
      = evaluateUnfiltered fives 0 .strict (oneJoins (.cons "n" (.int 7) .nil)) := by
    decide +kernel
  have hscreens := (filters_exact fives_written (fun body _ => fives_names body) made hall).1.1
    (hsame.trans hall)
  exact ⟨e, rows, made, hkeys, hall, hsame.trans hall, hscreens⟩

/-- The row that joins nothing lacks the field that is filtered by. No tuple has it, so nothing
fails over all rows, but the strict evaluation fails at the filter of its feed. -/
theorem filters_fail :
    evaluateUnfiltered fives 0 .strict (oneJoins .nil)
        = .ok [(⟨[.int 1, .int 1]⟩, .cons "n" (.int 5) .nil)] ∧
      evaluate fives 0 .strict (oneJoins .nil) = .error (.eval (.fieldNotFound "p" "p.n")) := by
  decide +kernel

end Engine

end LiveQuery
