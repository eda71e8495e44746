import LiveQuery.Proofs.Engine.Failures
import LiveQuery.Proofs.Engine.Provision
import LiveQuery.Proofs.Engine.Redelivery
import LiveQuery.Proofs.Engine.Subqueries
import LiveQuery.Proofs.View.Missing

/-!
# No value of an output row is missing

Where the literals of a query and the rows of its collections are complete, so are the rows of its
feeds, and with them all rows that its bodies put out: those of views that are kept, and those of
bodies that are evaluated within others, by induction on the depth of the evaluation.

**Invariant.** `Engine.Clean`, of every engine that was given complete rows
(`Engine.Supplied.clean`), whatever failed on the way.

**Results.** `Engine.output_complete`.
-/

namespace LiveQuery

/-- The value of a literal. -/
def Expr.literal? : Expr → Option Scalar
  | .literal _ value => some value
  | _ => none

/-- The values of the literals that occur in a body. -/
def Body.literals (body : Body) : List Scalar :=
  body.occurring.filterMap Expr.literal?

theorem Body.mem_literals {body : Body} {id : ExprId} {value : Scalar}
    (h : .literal id value ∈ body.occurring) : value ∈ body.literals :=
  List.mem_filterMap.2 ⟨_, h, rfl⟩

/-- A body that is not one of the plan has no literals. -/
theorem Plan.complete_literals {plan : Plan}
    (h : ∀ body ∈ plan.bodies, ∀ value ∈ body.literals, value.Complete) (id : BodyId) :
    ∀ value ∈ (plan.body id).literals, value.Complete := by
  rcases plan.body_mem_or_empty id with hmem | hempty
  · exact h _ hmem
  · rw [hempty]
    exact fun _ hvalue => absurd hvalue List.not_mem_nil

/-- The rows that changes bring are complete. -/
def Change.Complete (batch : List Change) : Prop :=
  ∀ change ∈ batch, change.isUpsert = true → change.row.Complete

/-- Exact changes between complete rows have complete rows, those that are gone as well. -/
theorem Change.Exact.complete_row {before after : Rows} {changes : List Change}
    (h : Change.Exact before after changes) (hbefore : before.Complete) (hafter : after.Complete) :
    ∀ change ∈ changes, change.row.Complete := by
  intro change hchange
  cases hkind : change.kind with
  | insert => exact hafter _ _ (h.insertion change hchange hkind).2
  | update =>
      obtain ⟨_, -, -, hrow⟩ := h.update change hchange hkind
      exact hafter _ _ hrow
  | delete => exact hbefore _ _ (h.deletion change hchange hkind).1

/-- A view that is clean puts out complete rows. -/
theorem View.Clean.complete_output {view : View} (h : view.Clean) (b : Blueprint) :
    ∀ entry ∈ view.output b, entry.2.Complete :=
  fun entry hentry => h.visible entry.1 entry.2 (View.exists_of_mem_output hentry)

open Relation (ReflTransGen)

namespace Engine

/-- The literals below the query of an engine are complete, and so are the rows in its feeds; its
views are clean. -/
structure Clean (e : Engine) : Prop where
  built : e.plan.graph e.query = .ok e.graph
  literals : ∀ body, ReflTransGen e.plan.Holds e.query body →
    ∀ value ∈ (e.plan.body body).literals, value.Complete
  below : ∀ id view, e.views.get? id = some view → ReflTransGen e.plan.Holds e.query id
  feeds : ∀ entry ∈ e.feeds.entries, entry.2.rows.Complete
  views : ∀ id view, e.views.get? id = some view → view.Clean

/-- The engines of a query that were given complete rows, whether loads and batches succeeded or
failed. -/
inductive Supplied (plan : Plan) (query : BodyId) (policy : FieldPolicy) : Engine → Prop
  | made {e : Engine} (h : ofQuery plan query policy = .ok e) : Supplied plan query policy e
  | loaded {e : Engine} (contents : CollectionId → Rows) (complete : ∀ id, (contents id).Complete)
      (h : Supplied plan query policy e) : Supplied plan query policy (stateAfter (load contents e))
  | applied {e : Engine} (collection : CollectionId) (batch : List Change)
      (complete : Change.Complete batch) (h : Supplied plan query policy e) :
      Supplied plan query policy (stateAfter (apply collection batch e))

theorem Supplied.reached {plan : Plan} {query : BodyId} {policy : FieldPolicy} {e : Engine}
    (h : Supplied plan query policy e) : Reached plan query policy e := by
  induction h with
  | made h => exact .made h
  | loaded contents _ _ ih => exact .loaded contents ih
  | applied collection batch _ _ ih => exact .applied collection batch ih

variable {e : Engine}

/-! ## Feeds -/

theorem complete_loadAll {contents : CollectionId → Rows} (hcontents : ∀ id, (contents id).Complete)
    {feeds loaded : List (SourceId × Feed)} (h : e.loadAll contents feeds = .ok loaded) :
    ∀ entry ∈ loaded, entry.2.rows.Complete := by
  intro entry hentry
  obtain ⟨first, -, kept, hkept, rfl⟩ := exists_of_mem_loadAll h entry hentry
  obtain ⟨-, rfl⟩ := passing_eq_ok_iff.1 hkept
  exact .ofList fun found hfound => (hcontents _).mem found (List.mem_filter.1 hfound).1

theorem complete_feedWrites {feed : Feed} {batch : List Change} (hbatch : Change.Complete batch)
    {writes : List FeedWrite} (h : e.feedWrites feed batch = .ok writes) :
    ∀ write ∈ writes, ∀ row ∈ write.row, row.Complete := by
  induction batch generalizing writes with
  | nil =>
      cases h
      exact fun _ hmem => absurd hmem List.not_mem_nil
  | cons change rest ih =>
      obtain ⟨hchange, hrest⟩ := List.forall_mem_cons.1 hbatch
      have hwrite (kept : Bool) (hkept : kept = true → change.isUpsert = true) :
          ∀ row ∈ if kept then some change.row else none, row.Complete := by
        intro row hrow
        split at hrow
        next hkeep =>
          cases hrow
          exact hchange (hkept hkeep)
        · cases hrow
      unfold feedWrites at h
      split at h
      next hupsert =>
        obtain ⟨kept, -, h⟩ := Except.bind_eq_ok.1 h
        obtain ⟨others, hothers, h⟩ := Except.bind_eq_ok.1 h
        cases h
        exact List.forall_mem_cons.2 ⟨hwrite kept fun _ => hupsert, ih hrest hothers⟩
      · obtain ⟨kept, hkept, h⟩ := Except.bind_eq_ok.1 h
        obtain ⟨others, hothers, h⟩ := Except.bind_eq_ok.1 h
        cases h
        obtain rfl := Except.pure_eq_ok.1 hkept
        have hdelete := hwrite false fun h => absurd h Bool.false_ne_true
        exact List.forall_mem_cons.2 ⟨hdelete, ih hrest hothers⟩

theorem complete_writeRows {rows : Rows} (hrows : rows.Complete) {writes : List FeedWrite}
    (hwrites : ∀ write ∈ writes, ∀ row ∈ write.row, row.Complete) :
    (writeRows rows writes).1.Complete := by
  induction writes generalizing rows with
  | nil => exact hrows
  | cons write rest ih =>
      obtain ⟨hwrite, hrest⟩ := List.forall_mem_cons.1 hwrites
      refine ih (fun key row hrow => ?_) hrest
      rw [OrdMap.get?_set] at hrow
      split at hrow
      · exact hwrite row hrow
      · exact hrows key row hrow

theorem complete_writeFeeds {collection : CollectionId} {batch : List Change}
    (hbatch : Change.Complete batch) {feeds : List (SourceId × Feed)}
    (hfeeds : ∀ entry ∈ feeds, entry.2.rows.Complete)
    {written : List (SourceId × Feed × List Key)}
    (h : e.writeFeeds collection batch feeds = .ok written) :
    ∀ entry ∈ written, entry.2.1.rows.Complete := by
  induction feeds generalizing written with
  | nil =>
      cases h
      exact fun _ hmem => absurd hmem List.not_mem_nil
  | cons entry rest ih =>
      obtain ⟨hentry, hrest⟩ := List.forall_mem_cons.1 hfeeds
      obtain ⟨writes, others, hwrites, hothers, rfl⟩ := exists_writes h
      refine List.forall_mem_cons.2 ⟨complete_writeRows hentry ?_, ih hrest hothers⟩
      rcases hwrites with hwrites | rfl
      · exact complete_feedWrites hbatch hwrites
      · exact fun _ hmem => absurd hmem List.not_mem_nil

/-! ## Evaluation -/

namespace Clean

variable (h : e.Clean)

include h

/-- What is read of a body is complete if its view is clean where it is evaluated. -/
theorem yields_inputsStep {inputs : Inputs} {sub : BodyId}
    (hview : ∀ frames, (∀ frame ∈ frames, frame.Clean) →
      Except.Yields View.Clean (e.viewWithin inputs sub frames))
    {frames : List Frame} (hframes : ∀ frame ∈ frames, frame.Clean) :
    Except.Yields (fun rows => ∀ row ∈ rows, row.Complete)
        ((e.inputsStep inputs).subquery sub frames) ∧
      ∀ source, source.origin = .query sub →
        Except.Yields Rows.Complete ((e.inputsStep inputs).rows source frames) := by
  have houtput {view : View} (hclean : view.Clean) :
      ∀ row ∈ (view.output (e.blueprint sub)).map Prod.snd, row.Complete := by
    intro row hrow
    obtain ⟨entry, hentry, rfl⟩ := List.mem_map.1 hrow
    exact hclean.complete_output _ entry hentry
  refine ⟨?_, fun source horigin => ?_⟩
  · simp only [inputsStep]
    cases hkept : e.views.get? sub with
    | some view => exact .ok (houtput (h.views sub view hkept))
    | none => exact (hview frames hframes).bind fun view hclean => .ok (houtput hclean)
  · simp only [inputsStep, horigin]
    cases hkept : e.views.get? sub with
    | some view => exact .ok (h.views sub view hkept).visible
    | none =>
        cases frames with
        | nil => exact .error _
        | cons frame outer => exact (hview _ hframes).map fun view hclean => hclean.visible

theorem yields_collection (inputs : Inputs) {source : Source} {ref : CollectionRef}
    (horigin : source.origin = .collection ref) (frames : List Frame) :
    Except.Yields Rows.Complete ((e.inputsStep inputs).rows source frames) := by
  simp only [inputsStep, horigin]
  refine .ok ?_
  cases hfeed : e.feeds.get? source.id with
  | none => exact .empty
  | some feed => exact h.feeds _ (OrdMap.get?_eq_some_iff.1 hfeed)

omit h in
/-- A body that is evaluated within others has a clean view. -/
theorem yields_viewWithin {inputs : Inputs} {body : BodyId}
    (supplied : (e.blueprint body).Supplied { plan := e.plan, policy := e.policy, inputs })
    {frames : List Frame} (hframes : ∀ frame ∈ frames, frame.Clean) :
    Except.Yields View.Clean (e.viewWithin inputs body frames) := by
  unfold viewWithin
  dsimp only
  split
  next hrun => exact .ok ((supplied.safe_rederive hframes (.emptyView _)).of_ok hrun)
  · exact .error _

/-- However deep bodies are evaluated, those below the query read complete rows. -/
theorem supplied_within (depth : Nat) {body : BodyId}
    (hreach : ReflTransGen e.plan.Holds e.query body) :
    (e.blueprint body).Supplied
      { plan := e.plan, policy := e.policy, inputs := e.inputsWithin depth } := by
  have hliterals (id : ExprId) (value : Scalar)
      (hmem : .literal id value ∈ (e.blueprint body).occurring) : value.Complete :=
    h.literals body hreach value (Body.mem_literals (Plan.occurs_of_blueprint h.built hmem))
  induction depth generalizing body with
  | zero => exact ⟨⟨hliterals, fun _ _ _ _ _ => .error _⟩, fun _ _ _ _ => .error _⟩
  | succ depth ih =>
      have hview {sub : BodyId} (hholds : e.plan.Holds body sub) (frames : List Frame)
          (hframes : ∀ frame ∈ frames, frame.Clean) :
          Except.Yields View.Clean (e.viewWithin (e.inputsWithin depth) sub frames) :=
        have hsub := hreach.tail hholds
        yields_viewWithin (ih hsub fun id value hmem => h.literals sub hsub value
          (Body.mem_literals (Plan.occurs_of_blueprint h.built hmem))) hframes
      rw [inputsWithin_succ]
      refine ⟨⟨hliterals, fun id sub hmem frames hframes => ?_⟩,
        fun step hstep frames hframes => ?_⟩
      · have hholds := Plan.holds_of_blueprint h.built hmem
        exact (h.yields_inputsStep (hview hholds) hframes).1
      · obtain ⟨source, hsource, rfl⟩ := List.mem_map.1 hstep
        cases horigin : source.origin with
        | collection ref => exact h.yields_collection _ horigin frames
        | query sub =>
            exact (h.yields_inputsStep (hview (.source hsource horigin)) hframes).2 source horigin

theorem supplied {body : BodyId} (hreach : ReflTransGen e.plan.Holds e.query body) :
    (e.blueprint body).Supplied e.evaluator :=
  h.supplied_within e.plan.depth hreach

/-- A body below the query, read at any depth in clean frames. -/
theorem yields_within (depth : Nat) {body : BodyId}
    (hreach : ReflTransGen e.plan.Holds e.query body) {frames : List Frame}
    (hframes : ∀ frame ∈ frames, frame.Clean) :
    Except.Yields (fun rows => ∀ row ∈ rows, row.Complete)
        ((e.inputsWithin depth).subquery body frames) ∧
      ∀ source, source.origin = .query body →
        Except.Yields Rows.Complete ((e.inputsWithin depth).rows source frames) := by
  cases depth with
  | zero => exact ⟨.error _, fun _ _ => .error _⟩
  | succ depth =>
      rw [inputsWithin_succ]
      exact h.yields_inputsStep
        (fun frames => yields_viewWithin (h.supplied_within depth hreach)) hframes

/-! ## Operations -/

theorem setView {id : BodyId} (hreach : ReflTransGen e.plan.Holds e.query id) {view : View}
    (hview : view.Clean) : (e.setView id view).Clean where
  built := h.built
  literals := h.literals
  feeds := h.feeds
  below id' view' hget := by
    change (e.views.insert id view).get? id' = some view' at hget
    rw [OrdMap.get?_insert_eq] at hget
    split at hget
    next heq => exact heq ▸ hreach
    · exact h.below id' view' hget
  views id' view' hget := by
    change (e.views.insert id view).get? id' = some view' at hget
    rw [OrdMap.get?_insert_eq] at hget
    split at hget
    · cases hget
      exact hview
    · exact h.views id' view' hget

theorem setFeeds {feeds : List (SourceId × Feed)}
    (hfeeds : ∀ entry ∈ feeds, entry.2.rows.Complete) :
    (e.setFeeds (.ofList feeds)).Clean where
  built := h.built
  literals := h.literals
  below := h.below
  views := h.views
  feeds entry hentry :=
    hfeeds entry (OrdMap.mem_of_get?_ofList (OrdMap.get?_eq_some_iff.2 hentry))

omit h in
theorem started (e : Engine) (id : BodyId) (view : View) (h : e.Clean)
    (hview : e.views.get? id = some view) :
    Safe (fun view => (e.setView id view).Clean) (fun _ => True)
      ((e.blueprint id).rederive e.evaluator []) (e.blueprint id).emptyView :=
  have hreach := h.below id view hview
  ((h.supplied hreach).safe_rederive (fun _ hmem => absurd hmem List.not_mem_nil)
    (.emptyView _)).mono fun _ hclean => h.setView hreach hclean

omit h in
theorem updated (e : Engine) (changed : Changed) (id : BodyId) (view : View) (h : e.Clean)
    (hview : e.views.get? id = some view) :
    Safe (fun view => (e.setView id view).Clean) (fun _ => True) (e.updateView changed id)
      view := by
  have hreach := h.below id view hview
  have hsupplied := h.supplied hreach
  have hclean := h.views id view hview
  have hupdated : Safe View.Clean (fun _ => True) (e.updateView changed id) view := by
    unfold updateView
    dsimp only
    split
    · split
      · exact .pure hclean _
      · exact hsupplied.safe_follow _ hclean
    · exact hsupplied.safe_rederive (fun _ hmem => absurd hmem List.not_mem_nil) hclean
  exact hupdated.mono fun _ hclean => h.setView hreach hclean

theorem safe_load {contents : CollectionId → Rows} (hcontents : ∀ id, (contents id).Complete) :
    Safe Clean (fun _ => True) (load contents) e :=
  safe_load_of started h contents (fun _ _ => trivial)
    fun _ hload => h.setFeeds (complete_loadAll hcontents hload)

theorem safe_apply (collection : CollectionId) {batch : List Change}
    (hbatch : Change.Complete batch) :
    Safe Clean (fun _ => True) (apply collection batch) e := by
  refine safe_apply_of updated h collection batch (fun _ _ => trivial) fun written hwrite => ?_
  refine h.setFeeds fun entry hentry => ?_
  obtain ⟨first, hfirst, rfl⟩ := List.mem_map.1 hentry
  exact complete_writeFeeds hbatch h.feeds hwrite first hfirst

theorem complete_snapshot : ∀ entry ∈ e.snapshot, entry.2.Complete := by
  unfold snapshot
  split
  next view hview => exact (h.views _ view hview).complete_output _
  · exact fun _ hmem => absurd hmem List.not_mem_nil

end Clean

variable {plan : Plan} {query : BodyId} {policy : FieldPolicy}

theorem clean_ofQuery
    (literals : ∀ body, ReflTransGen plan.Holds query body →
      ∀ value ∈ (plan.body body).literals, value.Complete)
    (h : ofQuery plan query policy = .ok e) : e.Clean := by
  obtain ⟨graph, accepted, hmade⟩ := Except.bind_eq_ok.1 h
  obtain rfl := Except.pure_eq_ok.1 hmade
  have hview : ∀ id view,
      (OrdMap.ofList (((graph.selections.map Prod.snd).filter fun id => !plan.isCorrelated id).map
        fun id => (id, (plan.blueprint graph id).emptyView))).get? id = some view →
      id ∈ graph.selections.map Prod.snd ∧ view.Clean := by
    intro id view hget
    obtain ⟨id', hid, heq⟩ := List.mem_map.1 (OrdMap.mem_of_get?_ofList hget)
    obtain ⟨rfl, rfl⟩ := Prod.mk.inj heq
    exact ⟨(List.mem_filter.1 hid).1, .emptyView _⟩
  refine ⟨accepted, literals, fun id view hget => ?_, fun entry hentry => ?_,
    fun id view hget => (hview id view hget).2⟩
  · exact Plan.reach_of_selections accepted (hview id view hget).1
  · obtain ⟨body, -, hfeed⟩ := List.mem_flatMap.1
      (OrdMap.mem_of_get?_ofList (OrdMap.get?_eq_some_iff.2 hentry))
    rw [rows_of_feedsOf hfeed]
    exact .empty

/-- The engine of a query that is loaded with complete rows, of which something is known. -/
theorem exists_supplied {α : Type} (contents : CollectionId → Rows)
    (complete : ∀ id, (contents id).Complete) {f : Engine → α} {a : α}
    (h : (ofQuery plan query policy).toOption.map (fun made => f (stateAfter (load contents made)))
      = some a) : ∃ e, Supplied plan query policy e ∧ f e = a := by
  obtain ⟨made, hmade, hloaded⟩ := Except.exists_of_toOption h
  exact ⟨_, .loaded contents complete (.made hmade), hloaded⟩

/-- Every engine that was given complete rows is clean. -/
theorem Supplied.clean
    (literals : ∀ body, ReflTransGen plan.Holds query body →
      ∀ value ∈ (plan.body body).literals, value.Complete)
    (h : Supplied plan query policy e) : e.Clean := by
  induction h with
  | made hmade => exact clean_ofQuery literals hmade
  | loaded contents hcontents _ ih => exact (ih.safe_load hcontents).after
  | applied collection batch hbatch _ ih => exact (ih.safe_apply collection hbatch).after

/-- Where the literals of a query, and all rows that an engine is given, have nothing missing at any
depth, neither has any row of a snapshot, nor any row of the changes that a batch tells. It is the
same for the bodies below the query: for what the kept views show, and for what is read of a body at
any depth, in frames whose values are missing as a whole or complete. -/
theorem output_complete
    (literals : ∀ body, ReflTransGen plan.Holds query body →
      ∀ value ∈ (plan.body body).literals, value.Complete)
    (h : Supplied plan query policy e) :
    (∀ entry ∈ e.snapshot, entry.2.Complete) ∧
    (∀ collection batch changes e', Change.Complete batch →
      apply collection batch e = .ok changes e' →
        (∀ change ∈ changes, change.row.Complete) ∧ ∀ entry ∈ e'.snapshot, entry.2.Complete) ∧
    ∀ body, ReflTransGen plan.Holds query body →
      (∀ view, e.views.get? body = some view →
        ∀ entry ∈ view.output (e.blueprint body), entry.2.Complete) ∧
      ∀ depth frames, (∀ frame ∈ frames, frame.Clean) →
        (∀ rows, (e.inputsWithin depth).subquery body frames = .ok rows →
          ∀ row ∈ rows, row.Complete) ∧
        ∀ source, source.origin = .query body → ∀ rows,
          (e.inputsWithin depth).rows source frames = .ok rows → rows.Complete := by
  have hclean := h.clean literals
  have hsnapshot := hclean.complete_snapshot
  obtain ⟨rfl, rfl⟩ := h.reached.made_for
  refine ⟨hsnapshot, fun collection batch changes e' hbatch happly => ?_, fun body hreach => ?_⟩
  · have hafter := ((hclean.safe_apply collection hbatch).of_ok happly).complete_snapshot
    exact ⟨(exact_of_apply h.reached.regular happly).complete_row (.ofList hsnapshot)
      (.ofList hafter), hafter⟩
  · refine ⟨fun view hview => (hclean.views body view hview).complete_output _,
      fun depth frames hframes => ?_⟩
    exact hclean.yields_within depth hreach hframes

/-- For each row of a collection those of another one that have the same value, if any, with a value
that few of them have and a subquery for it. -/
def sparse : Plan :=
  ((do
    let a ← Builder.bind "a" (.collection ⟨0, "a"⟩) none
    let b ← Builder.bind "b" (.collection ⟨1, "b"⟩) (some .left)
    let same ← Builder.call .eq [.ref ⟨a.body, a.path.get "x"⟩, .ref ⟨b.body, b.path.get "x"⟩]
    Builder.on b (.expr same)
    Builder.openBody
    let c ← Builder.bind "c" (.collection ⟨1, "b"⟩) none
    let equal ← Builder.call .eq [.ref ⟨c.body, c.path.get "x"⟩, .ref ⟨a.body, a.path.get "x"⟩]
    Builder.filter (.expr equal)
    Builder.select [.field "y" (.ref ⟨c.body, c.path.get "y"⟩), .field "c" (.ref c)]
    let inner ← Builder.closeBody
    let known ← Builder.call .coalesce [.ref ⟨b.body, b.path.get "y"⟩, .value (.int 0)]
    Builder.select [.spread (.ref b), .field "y" (.ref ⟨b.body, b.path.get "y"⟩),
      .field "known" (.expr known), .field "inner" (.query inner)] : Builder Unit).run
    (Plan.openQuery {})).2.plan

/-- Two rows, and a row that has the same value as the first one. -/
def sparseContents (id : CollectionId) : Rows :=
  if id = 0 then .ofList [(.ofScalar (.int 1), .cons "x" (.int 5) .nil),
    (.ofScalar (.int 2), .cons "x" (.int 6) .nil)]
  else .ofList [(.ofScalar (.int 1), .cons "x" (.int 5) .nil)]

theorem complete_sparseContents (id : CollectionId) : (sparseContents id).Complete := by
  unfold sparseContents
  split
  · exact .ofList (by decide)
  · exact .ofList (by decide)

/-- A row with a value for both fields that `sparse` reads. -/
def sparseBatch : List Change :=
  [⟨.insert, .ofScalar (.int 2), .cons "x" (.int 6) (.cons "y" (.int 7) .nil)⟩]

/-- The rows that are put out, and those after the batch. -/
def sparseRows (e : Engine) : List Row × Option (List Row) :=
  (e.snapshot.map Prod.snd, EStateM.run' (do
    let _ ← apply 1 sparseBatch
    return (← get).snapshot.map Prod.snd) e)

/-- The rows for which a field, a joined row or the row of the subquery is missing do without, and
get it when it comes. -/
theorem output_complete_sparse :
    ∃ e, Supplied sparse 0 .undefined e ∧ (∀ entry ∈ e.snapshot, entry.2.Complete) ∧
      e.snapshot.map Prod.snd = [
        .ofList [("x", .int 5), ("known", .int 0), ("inner", .record (.ofList [("x", .int 5)]))],
        .ofList [("known", .int 0), ("inner", .null)]] ∧
      ∃ changes e', apply 1 sparseBatch e = .ok changes e' ∧
        (∀ change ∈ changes, change.row.Complete) ∧
        e'.snapshot.map Prod.snd = [
          .ofList [("x", .int 5), ("known", .int 0), ("inner", .record (.ofList [("x", .int 5)]))],
          .ofList [("x", .int 6), ("y", .int 7), ("known", .int 7), ("inner", .record (.ofList
            [("y", .int 7), ("c", .record (.ofList [("x", .int 6), ("y", .int 7)]))]))]] := by
  have literals : ∀ body ∈ sparse.bodies, ∀ value ∈ body.literals, value.Complete := by
    decide +kernel
  have hbatch : Change.Complete sparseBatch := by
    intro change hchange _
    rw [List.mem_singleton.1 hchange]
    decide
  obtain ⟨e, hsupplied, hrows⟩ : ∃ e, Supplied sparse 0 .undefined e ∧ sparseRows e = ([
      .ofList [("x", .int 5), ("known", .int 0), ("inner", .record (.ofList [("x", .int 5)]))],
      .ofList [("known", .int 0), ("inner", .null)]], some [
      .ofList [("x", .int 5), ("known", .int 0), ("inner", .record (.ofList [("x", .int 5)]))],
      .ofList [("x", .int 6), ("y", .int 7), ("known", .int 7), ("inner", .record (.ofList
        [("y", .int 7), ("c", .record (.ofList [("x", .int 6), ("y", .int 7)]))]))]]) :=
    exists_supplied sparseContents complete_sparseContents (by decide +kernel)
  obtain ⟨hsnapshot, hrun⟩ := Prod.mk.inj hrows
  obtain ⟨changes, e', happly, hafter⟩ := exists_of_run' hrun
  obtain ⟨hcomplete, hchanges, -⟩ :=
    output_complete (fun body _ => Plan.complete_literals literals body) hsupplied
  exact ⟨e, hsupplied, hcomplete, hsnapshot, changes, e', happly,
    (hchanges 1 _ changes e' hbatch happly).1, hafter⟩

end Engine

end LiveQuery
