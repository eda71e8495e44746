import LiveQuery.Proofs.Conditions
import LiveQuery.Proofs.Engine.Reads
import LiveQuery.Proofs.Thinning

/-!
# Joins over the rows that feeds let through

A feed lets through the rows of its source that pass the conditions on that source alone. A part of
`where` that fails on a row fails on all tuples with that row, and it is used only where all joins
are inner, so that no tuple lacks a source. A part of a join condition that fails on a row keeps
the row from joining, and it is used only where a row that joins nothing is not shown. So the rows
that are left out make no difference to a join that can be evaluated.

**Results.** `Engine.pushdown_exact`.
-/

namespace LiveQuery

namespace Evaluator

variable {ev ev' : Evaluator} {frames frames' : List Frame}

/-- Whether conditions can be evaluated and hold, all of them. -/
def meetsAll (ev : Evaluator) (frames : List Frame) (conds : List Expr) : Bool :=
  conds.all fun c => Except.isTrue (ev.holds frames c)

theorem meetsAll_iff {conds : List Expr} :
    ev.meetsAll frames conds = true ↔ ∀ c ∈ conds, ev.holds frames c = .ok true := by
  simp only [meetsAll, List.all_eq_true, Except.isTrue_iff]

theorem meetsAll_append (conds conds' : List Expr) :
    ev.meetsAll frames (conds ++ conds')
      = (ev.meetsAll frames conds && ev.meetsAll frames conds') :=
  List.all_append

theorem meetsAll_eq {name : String} {conds : List Expr}
    (hreads : ∀ c ∈ conds, Body.readsOnly name c = true) (hpolicy : ev.policy = ev'.policy)
    (hbound : ev.bound name frames = ev'.bound name frames') :
    ev.meetsAll frames conds = ev'.meetsAll frames' conds := by
  induction conds with
  | nil => rfl
  | cons c rest ih =>
      obtain ⟨hc, hrest⟩ := List.forall_mem_cons.1 hreads
      rw [meetsAll, meetsAll, List.all_cons, List.all_cons,
        holds_eq_of_readsOnly hc hpolicy hbound]
      exact congrArg _ (ih hrest)

/-- Conditions on one source can be held against what is bound to it, if values may be missing. -/
theorem meets_eq_ok {name : String} {conds : List Expr} {value : Scalar}
    (hreads : ∀ c ∈ conds, Body.readsOnly name c = true) (hpolicy : ev.policy = .undefined)
    (hbound : ev.bound name frames = .ok value) :
    Engine.meets ev frames conds = .ok (ev.meetsAll frames conds) := by
  induction conds with
  | nil => rfl
  | cons c rest ih =>
      obtain ⟨hc, hrest⟩ := List.forall_mem_cons.1 hreads
      obtain ⟨b, hb⟩ := exists_holds_of_readsOnly hc hpolicy hbound
      refine Except.bind_eq_ok.2 ⟨b, hb, ?_⟩
      rw [meetsAll, List.all_cons, hb]
      cases b with
      | false => rfl
      | true => exact ih hrest

/-- Conditions that could be held against a row are met just if all hold. -/
theorem eq_meetsAll {conds : List Expr} {met : Bool} (h : Engine.meets ev frames conds = .ok met) :
    met = ev.meetsAll frames conds := by
  induction conds with
  | nil => exact (Except.pure_eq_ok.1 h).symm
  | cons c rest ih =>
      obtain ⟨b, hb, h⟩ := Except.bind_eq_ok.1 h
      rw [meetsAll, List.all_cons, hb]
      cases b with
      | false => exact (Except.pure_eq_ok.1 h).symm
      | true => exact ih h

end Evaluator

namespace Body

variable {body : Body} {source : Source}

/-- The parts of `where` that can filter the rows of a source. -/
def filterParts (body : Body) (source : Source) : List Expr :=
  (if body.innerOnly then body.filter.toList.flatMap Expr.conjuncts else []).filter
    (readsOnly source.name)

/-- The parts of its own join condition that can filter the rows of a source. -/
def joinParts (body : Body) (source : Source) : List Expr :=
  (if source.join = some .inner || source.join = some .left then
    (body.joinCondition? source.name).toList.flatMap Expr.conjuncts else []).filter
      (readsOnly source.name)

theorem pushable_eq (body : Body) (source : Source) :
    body.pushable source = body.filterParts source ++ body.joinParts source :=
  List.filter_append _ _

theorem readsOnly_of_pushable {c : Expr} (h : c ∈ body.pushable source) :
    readsOnly source.name c = true :=
  (List.mem_filter.1 h).2

theorem readsOnly_of_filterParts {c : Expr} (h : c ∈ body.filterParts source) :
    readsOnly source.name c = true :=
  (List.mem_filter.1 h).2

theorem readsOnly_of_joinParts {c : Expr} (h : c ∈ body.joinParts source) :
    readsOnly source.name c = true :=
  (List.mem_filter.1 h).2

theorem filterParts_subset :
    body.filterParts source ⊆ body.filter.toList.flatMap Expr.conjuncts := by
  intro c hc
  have hc := (List.mem_filter.1 hc).1
  split at hc
  · exact hc
  · exact absurd hc List.not_mem_nil

theorem joinParts_subset :
    body.joinParts source ⊆ (body.joinCondition? source.name).toList.flatMap Expr.conjuncts := by
  intro c hc
  have hc := (List.mem_filter.1 hc).1
  split at hc
  · exact hc
  · exact absurd hc List.not_mem_nil

/-- Beside an outer join no part of `where` filters rows. -/
theorem filterParts_of_outer (hsource : source ∈ body.sources)
    (h : source.join.any JoinKind.keepsLeft = true ∨ source.join.any JoinKind.keepsRight = true)
    (other : Source) : body.filterParts other = [] := by
  have houter : body.innerOnly = false := by
    refine List.all_eq_false.2 ⟨source, hsource, ?_⟩
    cases hjoin : source.join with
    | none => simp [hjoin] at h
    | some kind => cases kind <;> simp_all [JoinKind.keepsLeft, JoinKind.keepsRight]
  rw [filterParts, houter]
  rfl

/-- A source whose rows are shown when they join nothing is not filtered. -/
theorem joinParts_of_keepsRight (h : source.join.any JoinKind.keepsRight = true) :
    body.joinParts source = [] := by
  cases hjoin : source.join with
  | none => simp [hjoin] at h
  | some kind => cases kind <;> simp_all [joinParts, JoinKind.keepsRight]

end Body

/-- Inputs in which the sources that read collections have given rows. -/
def Inputs.withCollections (inputs : Inputs) (rows : Source → CollectionRef → Rows) : Inputs where
  rows := fun source outer =>
    match source.origin with
    | .collection ref => .ok (rows source ref)
    | .query _ => inputs.rows source outer
  subquery := inputs.subquery

/-- Evaluation under the default policy, where the sources that read collections have given rows. -/
def Plan.reading (plan : Plan) (inputs : Inputs) (rows : Source → CollectionRef → Rows) :
    Evaluator where
  plan := plan
  policy := .undefined
  inputs := inputs.withCollections rows

namespace Source

/-- Whether the rows of a source are those of a collection. -/
def readsCollection (source : Source) : Bool :=
  match source.origin with
  | .collection _ => true
  | .query _ => false

end Source

namespace JoinPlan

section

variable (ev : Evaluator) (id : BodyId)

/-- The frame of a body in which only the source at a position is bound. -/
def alone (position : Nat) (row : Row) : Frame where
  body := id
  env := List.replicate position .undefined ++ [.record row]

/-- Whether the feed of a source lets an entry through. A source that reads a query has no feed. -/
def lets (position : Nat) (source : Source) (entry : Key × Row) : Bool :=
  !source.readsCollection
    || ev.meetsAll [alone id position entry.2] ((ev.plan.body id).pushable source)

/-- Whether a tuple meets what `where` says of each of the first sources alone. -/
def promising (outer : List Frame) (position : Nat) (t : PartialTuple) : Bool :=
  ((ev.plan.body id).sources.take position).all fun source =>
    !source.readsCollection
      || ev.meetsAll (frames id outer t.env) ((ev.plan.body id).filterParts source)

end

variable {ev seen : Evaluator} {id : BodyId} {outer outer' : List Frame}
variable {position : Nat} {source : Source} {t : PartialTuple} {entry : Key × Row}

/-! ## Conditions on one source of a tuple -/

/-- In a body whose aliases are apart, the alias of a source stands for what is bound to it. -/
theorem bound_source (hnames : ((ev.plan.body id).sources.map Source.name).Nodup)
    (hsource : (ev.plan.body id).sources[position]? = some source) (env : List Scalar) :
    ev.bound source.name (frames id outer env) = .ok (env.getD position .undefined) :=
  ev.bound_append (List.forall_mem_nil _) (Body.position?_of_nodup hnames hsource)

theorem meetsAll_of_bound (hplan : ev.plan = seen.plan) (hpolicy : ev.policy = seen.policy)
    (hnames : ((ev.plan.body id).sources.map Source.name).Nodup)
    (hsource : (ev.plan.body id).sources[position]? = some source) {conds : List Expr}
    (hreads : ∀ c ∈ conds, Body.readsOnly source.name c = true) {env env' : List Scalar}
    (henv : env.getD position .undefined = env'.getD position .undefined) :
    ev.meetsAll (frames id outer env) conds = seen.meetsAll (frames id outer' env') conds := by
  refine Evaluator.meetsAll_eq hreads hpolicy ?_
  rw [bound_source hnames hsource, bound_source (hplan ▸ hnames) (hplan ▸ hsource), henv]

theorem promising_succ (hsource : (ev.plan.body id).sources[position]? = some source) :
    promising ev id outer (position + 1) t
      = (promising ev id outer position t && (!source.readsCollection
          || ev.meetsAll (frames id outer t.env) ((ev.plan.body id).filterParts source))) := by
  rw [promising, promising, List.take_add_one, hsource, List.all_append, Option.toList_some,
    List.all_cons, List.all_nil, Bool.and_true]

/-- What a source is bound to does not change when more sources are bound. -/
theorem promising_bind_of_le (hnames : ((ev.plan.body id).sources.map Source.name).Nodup)
    (hposition : position ≤ t.env.length) :
    promising ev id outer position (t.bind entry) = promising ev id outer position t := by
  refine Bool.eq_iff_iff.2 ?_
  simp only [promising, List.all_eq_true]
  refine forall₂_congr fun source hsource => ?_
  obtain ⟨i, hi, rfl⟩ := List.mem_take_iff_getElem.1 hsource
  obtain ⟨hi, hlt⟩ := Nat.lt_min.1 hi
  have henv : (t.bind entry).env.getD i .undefined = t.env.getD i .undefined := by
    rw [List.getD_eq_getElem?_getD, List.getD_eq_getElem?_getD]
    exact congrArg (Option.getD · _)
      (List.getElem?_append_left (Nat.lt_of_lt_of_le hi hposition))
  rw [meetsAll_of_bound rfl rfl hnames (List.getElem?_eq_getElem hlt)
    (fun _ => Body.readsOnly_of_filterParts) henv]

/-- A row that joins meets the conditions of its feed just if the tuple it joins into meets what
`where` says of it. -/
theorem promising_bind (hplan : ev.plan = seen.plan) (hpolicy : ev.policy = seen.policy)
    (hnames : ((ev.plan.body id).sources.map Source.name).Nodup)
    (hsource : (ev.plan.body id).sources[position]? = some source)
    (hlength : t.env.length = position)
    (hjoins : ev.admits (frames id outer (t.bind entry).env)
      ((ev.plan.body id).joinCondition? source.name) = .ok true) :
    promising ev id outer (position + 1) (t.bind entry)
      = (promising ev id outer position t && lets seen id position source entry) := by
  have hbound : (t.bind entry).env.getD position .undefined
      = (alone id position entry.2).env.getD position .undefined := by
    simp [PartialTuple.bind, alone, ← hlength]
  have hseen {conds : List Expr} (hreads : ∀ c ∈ conds, Body.readsOnly source.name c = true) :
      ev.meetsAll (frames id outer (t.bind entry).env) conds
        = seen.meetsAll [alone id position entry.2] conds :=
    meetsAll_of_bound hplan hpolicy hnames hsource hreads hbound
  have hown : ev.meetsAll (frames id outer (t.bind entry).env)
      ((ev.plan.body id).joinParts source) = true :=
    Evaluator.meetsAll_iff.2 fun c hc =>
      Evaluator.holds_of_admits hjoins c (Body.joinParts_subset hc)
  rw [hseen fun _ => Body.readsOnly_of_joinParts] at hown
  rw [promising_succ hsource, promising_bind_of_le hnames (Nat.le_of_eq hlength.symm), lets,
    ← hplan, Body.pushable_eq, Evaluator.meetsAll_append, hown, Bool.and_true,
    hseen fun _ => Body.readsOnly_of_filterParts]

/-- A tuple that `where` keeps meets all parts of it. -/
theorem promising_of_admits
    (h : ev.admits (frames id outer t.env) (ev.plan.body id).filter = .ok true) :
    promising ev id outer position t = true := by
  refine List.all_eq_true.2 fun source _ => ?_
  rw [Evaluator.meetsAll_iff.2 fun c hc =>
    Evaluator.holds_of_admits h c (Body.filterParts_subset hc)]
  exact Bool.or_true _

theorem promising_of_outer (hmem : source ∈ (ev.plan.body id).sources)
    (h : source.join.any JoinKind.keepsLeft = true ∨ source.join.any JoinKind.keepsRight = true) :
    promising ev id outer position t = true := by
  refine List.all_eq_true.2 fun other _ => ?_
  rw [Body.filterParts_of_outer hmem h other]
  exact Bool.or_true _

theorem lets_of_keepsRight (hmem : source ∈ (ev.plan.body id).sources)
    (h : source.join.any JoinKind.keepsRight = true) : lets ev id position source entry = true := by
  rw [lets, Body.pushable_eq, Body.filterParts_of_outer hmem (.inr h),
    Body.joinParts_of_keepsRight h]
  exact Bool.or_true _

/-! ## The join -/

/-- Evaluators of a plan that differ in what the sources of a body read: instead of the rows of a
collection, the second one reads those that the feed of the source lets through. -/
structure Pushed (ev ev' seen : Evaluator) (id : BodyId) : Prop where
  plan : ev.plan = seen.plan
  policy : ev.policy = seen.policy
  names : ((ev.plan.body id).sources.map Source.name).Nodup
  agrees : ∀ es, ev.Agrees ev' es
  collections : ∀ position source ref, (ev.plan.body id).sources[position]? = some source →
    source.origin = .collection ref → ∃ rows rows',
      (∀ frames, ev.inputs.rows source frames = .ok rows) ∧
      (∀ frames, ev'.inputs.rows source frames = .ok rows') ∧
        rows'.entries = rows.entries.filter (lets seen id position source)
  queries : ∀ source sub, source.origin = .query sub →
    ev'.inputs.rows source = ev.inputs.rows source

namespace Pushed

variable {ev' : Evaluator} {step : JoinStep} {shared shared' : Option Rows}

/-- The tuples that are kept fit the rows that are kept, whichever these are. -/
theorem thins (h : Pushed ev ev' seen id)
    (hsource : (ev.plan.body id).sources[position]? = some step.source)
    (hcondition : step.condition = (ev.plan.body id).joinCondition? step.source.name)
    (hshares : shared'.isSome = shared.isSome)
    (hrows : ∀ t rows, rowsFor ev id outer step shared t = .ok rows →
      ∃ rows', rowsFor ev' id outer step shared' t = .ok rows' ∧
        rows'.entries = rows.entries.filter (lets seen id position step.source)) :
    Thins ev ev' id outer step position shared shared' (lets seen id position step.source)
      (promising ev id outer position) (promising ev id outer (position + 1)) where
  admits frames := (h.agrees _).admits_eq frames _ (List.Subset.refl _)
  shares := hshares
  rows := hrows
  joined _ hlength _ hjoins :=
    promising_bind h.plan h.policy h.names hsource hlength (hcondition ▸ hjoins)
  outer houter _ :=
    have hmem := List.mem_of_getElem? hsource
    ⟨promising_of_outer hmem houter, promising_of_outer hmem houter⟩
  right hright _ := lets_of_keepsRight (h.plan ▸ List.mem_of_getElem? hsource) hright

theorem exists_thins (h : Pushed ev ev' seen id)
    (hsource : (ev.plan.body id).sources[position]? = some step.source)
    (hcondition : step.condition = (ev.plan.body id).joinCondition? step.source.name)
    (hlateral : step.lateral = ev.plan.isLateral step.source)
    (hshared : sharedRows ev outer none step position = .ok shared) :
    ∃ shared', sharedRows ev' outer none step position = .ok shared' ∧
      Thins ev ev' id outer step position shared shared' (lets seen id position step.source)
        (promising ev id outer position) (promising ev id outer (position + 1)) := by
  rw [sharedRows] at hshared ⊢
  cases horigin : step.source.origin with
  | collection ref =>
      obtain ⟨rows, rows', hread, hread', hkept⟩ := h.collections _ _ ref hsource horigin
      have hlateral : step.lateral = false := by rw [hlateral, Plan.isLateral, horigin]
      rw [hlateral, if_neg Bool.false_ne_true, hread] at hshared
      rw [hlateral, if_neg Bool.false_ne_true, hread']
      cases hshared
      refine ⟨some rows', rfl, h.thins hsource hcondition rfl fun t _ hrows => ?_⟩
      cases hrows
      exact ⟨rows', rfl, hkept⟩
  | query sub =>
      have hread := h.queries step.source sub horigin
      have hlets (entry : Key × Row) : lets seen id position step.source entry = true := by
        simp only [lets, Source.readsCollection, horigin, Bool.not_false, Bool.true_or]
      rw [hread]
      refine ⟨shared, hshared, h.thins hsource hcondition rfl fun t rows hrows => ⟨rows, ?_, ?_⟩⟩
      · simpa only [rowsFor, hread] using hrows
      · exact (List.filter_eq_self.2 fun entry _ => hlets entry).symm

/-- What can be joined of all rows is joined of those that are kept. -/
theorem enumerate_eq (h : Pushed ev ev' seen id) {tuples : List Tuple}
    (hall : (ev.plan.joinPlan id).enumerate ev outer none = .ok tuples) :
    (ev.plan.joinPlan id).enumerate ev' outer none = .ok tuples := by
  obtain ⟨joined, hjoined, hfiltered⟩ := Except.bind_eq_ok.1 hall
  obtain ⟨hevaluated, rfl⟩ := filtered_eq_ok.1 hfiltered
  have hsteps : ∀ (i : Nat) (step : JoinStep), (ev.plan.joinPlan id).steps[i]? = some step →
      ∀ shared, sharedRows ev outer none step (0 + i) = .ok shared →
        ∃ shared' keep, sharedRows ev' outer none step (0 + i) = .ok shared' ∧
          Thins ev ev' id outer step (0 + i) shared shared' keep (promising ev id outer (0 + i))
            (promising ev id outer (0 + i + 1)) := by
    intro i step hstep shared hshared
    rw [Nat.zero_add] at hshared ⊢
    rw [Plan.joinPlan, List.getElem?_map, Option.map_eq_some_iff] at hstep
    obtain ⟨source, hsource, rfl⟩ := hstep
    obtain ⟨shared', hshared', hthins⟩ := h.exists_thins hsource rfl rfl hshared
    exact ⟨shared', _, hshared', hthins⟩
  have hthinned := runSteps_thinned hsteps
    (fun t ht => by rw [List.mem_singleton.1 ht]; rfl) hjoined
  refine Except.bind_eq_ok.2 ⟨_, hthinned, ?_⟩
  have hadmits (frames : List Frame) := ((h.agrees _).admits_eq frames
    (ev.plan.joinPlan id).filter (List.Subset.refl _)).symm
  simp only [filtered_eq_ok, hadmits]
  refine ⟨fun t ht => hevaluated t (List.mem_filter.1 ht).1, ?_⟩
  rw [List.filter_filter]
  refine congrArg _ (List.filter_congr fun t _ => ?_)
  -- a tuple that was left out early is one that `where` does not keep
  cases hpromising : promising ev id outer (0 + (ev.plan.joinPlan id).steps.length) t with
  | true => rw [Bool.and_true]
  | false =>
      rw [Bool.and_false, Bool.eq_false_iff]
      intro hstays
      exact Bool.false_ne_true
        (hpromising.symm.trans (promising_of_admits (Except.isTrue_iff.1 hstays)))

end Pushed

end JoinPlan

namespace Engine

variable {plan : Plan} {query : BodyId} {e : Engine} {body : BodyId}

/-- A feed lets through the rows that meet all its filters, if it can hold each row against them. -/
theorem passing_eq_ok_iff {feed : Feed} {entries kept : List (Key × Row)} :
    e.passing feed entries = .ok kept ↔ (∀ entry ∈ entries, ∃ b, e.passes feed entry.2 = .ok b) ∧
      kept = entries.filter fun entry =>
        e.evaluator.meetsAll [JoinPlan.alone feed.body feed.position entry.2] feed.filters := by
  rw [Except.filter_eq_ok (f := e.passing feed) (g := id) rfl fun _ _ => rfl, List.map_id]
  refine and_congr_right fun hall => ?_
  rw [List.filter_congr fun entry hentry => ?_]
  obtain ⟨b, hb⟩ := hall entry hentry
  rw [hb]
  exact Evaluator.eq_meetsAll hb

section

variable {feed : Feed} {source : Source}

theorem lets_of_belongs (ev : Evaluator) (h : feed.Belongs ev.plan source) (entry : Key × Row) :
    JoinPlan.lets ev feed.body feed.position source entry
      = ev.meetsAll [JoinPlan.alone feed.body feed.position entry.2] feed.filters := by
  simp only [JoinPlan.lets, Source.readsCollection, h.origin, h.filters, Bool.not_true,
    Bool.false_or]

/-- Under the default policy, the feed of a source can hold any row against its filters. -/
theorem passes_eq_ok (hpolicy : e.policy = .undefined) (h : feed.Belongs e.plan source)
    (hnames : ((e.plan.body feed.body).sources.map Source.name).Nodup) (row : Row) :
    e.passes feed row
      = .ok (e.evaluator.meetsAll [JoinPlan.alone feed.body feed.position row] feed.filters) :=
  Evaluator.meets_eq_ok (fun _ hc => Body.readsOnly_of_pushable (h.filters ▸ hc)) hpolicy
    (JoinPlan.bound_source hnames h.place _)

end

theorem passing_eq_ok (hpolicy : e.policy = .undefined) {position : Nat} {source : Source}
    {ref : CollectionRef} (hnames : ((e.plan.body body).sources.map Source.name).Nodup)
    (hsource : (e.plan.body body).sources[position]? = some source)
    (horigin : source.origin = .collection ref) (node : NodeId) (entries : List (Key × Row)) :
    e.passing { node, body, position, collection := ref
                filters := (e.plan.body body).pushable source } entries
      = .ok (entries.filter (JoinPlan.lets e.evaluator body position source)) := by
  have hbelongs : Feed.Belongs { node, body, position, collection := ref
                                 filters := (e.plan.body body).pushable source } e.plan source :=
    ⟨hsource, horigin, rfl⟩
  exact passing_eq_ok_iff.2 ⟨fun entry _ => ⟨_, passes_eq_ok hpolicy hbelongs hnames entry.2⟩,
    List.filter_congr fun entry _ => lets_of_belongs e.evaluator hbelongs entry⟩

/-- The rows of a source of a body that its feed lets through. -/
def letThrough (e : Engine) (body : BodyId) (contents : CollectionId → Rows) (source : Source) :
    Rows :=
  match source.origin with
  | .collection ref =>
      let position := ((e.plan.body body).position? source.name).getD 0
      ⟨(contents ref.id).entries.filter (JoinPlan.lets e.evaluator body position source),
        (contents ref.id).increasing.filter _⟩
  | .query _ => OrdMap.empty

theorem entries_letThrough (hnames : ((e.plan.body body).sources.map Source.name).Nodup)
    {position : Nat} {source : Source}
    (hsource : (e.plan.body body).sources[position]? = some source) {ref : CollectionRef}
    (horigin : source.origin = .collection ref) (contents : CollectionId → Rows) :
    (e.letThrough body contents source).entries
      = (contents ref.id).entries.filter (JoinPlan.lets e.evaluator body position source) := by
  simp only [letThrough, horigin, Body.position?_of_nodup hnames hsource, Option.getD_some]

/-- Under the default policy, a body whose aliases are apart is joined over the rows that the feeds
of its sources let through, or over all rows of the collections: the tuples are the same, whenever
there are any of all rows. What else the body reads, and the frames around it, do not matter. -/
theorem pushdown_exact (h : ofQuery plan query .undefined = .ok e)
    (hnames : ((plan.body body).sources.map Source.name).Nodup) (contents : CollectionId → Rows) :
    ∃ kept : Source → Rows,
      (∀ position source ref, (plan.body body).sources[position]? = some source →
        source.origin = .collection ref →
          ∃ feed, (source.id, feed) ∈ plan.feedsOf e.graph body ∧ feed.position = position ∧
            e.passing feed (contents ref.id).entries = .ok (kept source).entries) ∧
      ∀ inputs outer tuples,
        (plan.joinPlan body).enumerate (plan.reading inputs fun _ ref => contents ref.id) outer none
            = .ok tuples →
        (plan.joinPlan body).enumerate (plan.reading inputs fun source _ => kept source) outer none
            = .ok tuples := by
  obtain ⟨graph, _, hmade⟩ := Except.bind_eq_ok.1 h
  have hplan : e.plan = plan := by
    rw [← Except.pure_eq_ok.1 hmade]
  have hpolicy : e.policy = .undefined := by
    rw [← Except.pure_eq_ok.1 hmade]
  subst hplan
  refine ⟨e.letThrough body contents, fun position source ref hsource horigin => ?_,
    fun inputs outer tuples hall => ?_⟩
  · refine ⟨_, feed_mem_feedsOf e.graph hsource horigin, rfl, ?_⟩
    rw [entries_letThrough hnames hsource horigin]
    exact passing_eq_ok hpolicy hnames hsource horigin _ _
  · have hpushed : JoinPlan.Pushed (e.plan.reading inputs fun _ ref => contents ref.id)
        (e.plan.reading inputs fun source _ => e.letThrough body contents source) e.evaluator
        body :=
      { plan := rfl
        policy := hpolicy.symm
        names := hnames
        agrees := fun _ => ⟨rfl, rfl, fun _ _ _ _ => rfl⟩
        collections := fun position source ref hsource horigin =>
          ⟨contents ref.id, e.letThrough body contents source, fun frames => by
            simp only [Plan.reading, Inputs.withCollections, horigin], fun frames => by
            simp only [Plan.reading, Inputs.withCollections, horigin],
            entries_letThrough hnames hsource horigin contents⟩
        queries := fun source sub horigin => by
          simp only [Plan.reading, Inputs.withCollections, horigin] }
    exact hpushed.enumerate_eq hall

/-- The rows of a collection, each with the large rows that have its field `x`. -/
def withLarge : Plan :=
  ((do
    let a ← Builder.bind "a" (.collection ⟨0, "rows"⟩) none
    let b ← Builder.bind "b" (.collection ⟨0, "rows"⟩) (some .left)
    let equal ← Builder.call .eq [.ref ⟨b.body, b.path.get "x"⟩, .ref ⟨a.body, a.path.get "x"⟩]
    let large ← Builder.call .gt [.ref ⟨b.body, b.path.get "x"⟩, .value (.int 5)]
    let large ← Builder.call .and [.expr large]
    let both ← Builder.call .and [.expr equal, .expr large]
    Builder.on b (.expr both)
    Builder.selectValue (.ref a) : Builder Unit).run (Plan.openQuery {})).2.plan

/-- A small row and a large one. -/
def smallAndLarge : Rows :=
  OrdMap.ofList
    [(.ofScalar (.int 1), .cons "x" (.int 3) .nil), (.ofScalar (.int 2), .cons "x" (.int 8) .nil)]

/-- The join reads both rows on its left side, and the large one on its right side. -/
theorem pushdown_exact_left :
    ∃ e, ofQuery withLarge 0 .undefined = .ok e ∧
      ((withLarge.body 0).sources.map Source.name).Nodup ∧ ∃ kept : Source → Rows,
        ((withLarge.body 0).sources.map fun source => (kept source).keys)
          = [[.ofScalar (.int 1), .ofScalar (.int 2)], [.ofScalar (.int 2)]] ∧
        ((withLarge.joinPlan 0).enumerate (withLarge.reading
            ⟨fun _ _ => .error .tooDeep, fun _ _ => .error .tooDeep⟩ fun source _ => kept source)
            [] none).toOption.map (List.map Tuple.key)
          = some [.composite [some (.ofScalar (.int 1)), none],
              .composite [some (.ofScalar (.int 2)), some (.ofScalar (.int 2))]] := by
  have hnames : ((withLarge.body 0).sources.map Source.name).Nodup := by decide +kernel
  have hsources : (withLarge.body 0).sources = [⟨0, "a", .collection ⟨0, "rows"⟩, none⟩,
      ⟨1, "b", .collection ⟨0, "rows"⟩, some .left⟩] := by decide +kernel
  obtain ⟨e, hmade, hfeeds⟩ : ∃ e, ofQuery withLarge 0 .undefined = .ok e ∧
      ((withLarge.feedsOf e.graph 0).map fun entry => (entry.2.position,
        (e.passing entry.2 smallAndLarge.entries).toOption.map (List.map Prod.fst)))
          = [(0, some [.ofScalar (.int 1), .ofScalar (.int 2)]),
            (1, some [.ofScalar (.int 2)])] :=
    Except.exists_of_toOption (by decide +kernel)
  obtain ⟨kept, hkept, hjoined⟩ := pushdown_exact hmade hnames fun _ => smallAndLarge
  -- what is kept of a source is found by its position
  have hkeys (position : Nat) {source : Source} {ref : CollectionRef}
      (hsource : (withLarge.body 0).sources[position]? = some source)
      (horigin : source.origin = .collection ref) :
      (position, some (kept source).keys) ∈ [(0, some [.ofScalar (.int 1), .ofScalar (.int 2)]),
        (1, some [Key.ofScalar (.int 2)])] := by
    obtain ⟨feed, hfeed, hposition, hpassing⟩ := hkept position source ref hsource horigin
    rw [← hfeeds]
    refine List.mem_map.2 ⟨_, hfeed, ?_⟩
    rw [hposition, hpassing]
    rfl
  refine ⟨e, hmade, hnames, kept, ?_, ?_⟩
  · rw [hsources]
    refine congrArg₂ List.cons ?_ (congrArg₂ List.cons ?_ rfl)
    · simpa using hkeys 0 (by rw [hsources]; rfl) rfl
    · simpa using hkeys 1 (by rw [hsources]; rfl) rfl
  · obtain ⟨tuples, htuples, htwo⟩ : ∃ tuples, (withLarge.joinPlan 0).enumerate (withLarge.reading
        ⟨fun _ _ => .error .tooDeep, fun _ _ => .error .tooDeep⟩ fun _ _ => smallAndLarge) [] none
          = .ok tuples ∧ tuples.map Tuple.key = [.composite [some (.ofScalar (.int 1)), none],
              .composite [some (.ofScalar (.int 2)), some (.ofScalar (.int 2))]] :=
      Except.exists_of_toOption (by decide +kernel)
    rw [hjoined _ _ _ htuples]
    exact congrArg some htwo

end Engine

end LiveQuery
