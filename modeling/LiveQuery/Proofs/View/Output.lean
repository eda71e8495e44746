import LiveQuery.Engine
import LiveQuery.Proofs.Dedup
import LiveQuery.Proofs.Operation
import LiveQuery.Proofs.Replay

/-!
# The output of views

The upkeep of a view works on tuples, groups and output rows first, and shows the result at
the very end. So what is shown is either what it was, when evaluation fails, or what was
made of the new output rows, with the exact changes.

**Results.** `Blueprint.keepsShown_of_failure` for both ways of upkeep;
`Blueprint.publish_exact` and from it `rederive_exact` and `follow_exact`.
-/

namespace LiveQuery

/-- What can be seen of a view: its visible rows, and their order. -/
def View.shown (view : View) : Rows × List Key :=
  (view.visible, view.order)

/-- The output lists each visible row once, and no other. -/
structure View.ListsVisible (b : Blueprint) (view : View) : Prop where
  nodup : ((view.output b).map Prod.fst).Nodup
  keyed_eq : keyed (view.output b) = view.visible

namespace View

theorem output_eq_of_shown {b : Blueprint} {view after : View} (h : after.shown = view.shown) :
    after.output b = view.output b := by
  obtain ⟨hvisible, horder⟩ := Prod.mk.inj h
  simp only [output, hvisible, horder]

theorem ListsVisible.of_shown {b : Blueprint} {view after : View} (h : after.shown = view.shown)
    (hlists : view.ListsVisible b) : after.ListsVisible b where
  nodup := by
    rw [output_eq_of_shown h]
    exact hlists.nodup
  keyed_eq := by
    rw [output_eq_of_shown h, hlists.keyed_eq, (Prod.mk.inj h).1]

@[simp] theorem output_emptyView (b : Blueprint) : b.emptyView.output b = [] := by
  unfold output
  split <;> rfl

theorem listsVisible_emptyView (b : Blueprint) : b.emptyView.ListsVisible b where
  nodup := by
    rw [output_emptyView]
    exact .nil
  keyed_eq := by
    rw [output_emptyView]
    rfl

end View

/-! ## The window -/

namespace Body

/-- What the window chooses from has different keys. -/
theorem nodup_candidates (body : Body) (staged : OrdMap Key StagedRow) :
    ((body.candidates staged).map Prod.fst).Nodup := by
  unfold candidates
  split
  · rw [List.map_map, List.Nodup, List.pairwise_map]
    refine (pairwise_eraseDupsBy _ _).imp fun {s t} hne heq => ?_
    have hrows : s.row = t.row := by
      simpa [Key.ofScalar] using heq
    simp [hrows] at hne
  · exact OrdMap.nodup_keys staged

theorem nodup_window (body : Body) (staged : OrdMap Key StagedRow) :
    ((body.window staged).map Prod.fst).Nodup := by
  have hsorted := (List.mergeSort_perm (body.candidates staged) fun a b =>
    (body.compareRows a b).isLE).map Prod.fst
  have hnodup := hsorted.nodup_iff.2 (body.nodup_candidates staged)
  unfold window
  rw [List.map_map]
  refine List.Sublist.nodup ?_ hnodup
  refine List.Sublist.map Prod.fst ?_
  split
  · exact (List.take_sublist _ _).trans (List.drop_sublist _ _)
  · exact List.drop_sublist _ _

end Body

/-- Looked up by the keys of rows with different keys, the rows come out in order. -/
theorem filterMap_get?_ofList {rows : List (Key × Row)} (hnodup : (rows.map Prod.fst).Nodup) :
    (rows.map Prod.fst).filterMap (fun key => ((OrdMap.ofList rows).get? key).map (key, ·))
      = rows := by
  rw [List.filterMap_map]
  refine (List.filterMap_congr fun entry hentry => ?_).trans List.filterMap_some
  simp [OrdMap.get?_ofList_of_mem hnodup hentry]

/-! ## What upkeep leaves alone until it publishes -/

/-- The view with the output rows of another one. -/
def View.withRows (view rows : View) : View :=
  { view with staged := rows.staged, visible := rows.visible, order := rows.order }

/-- An operation is about tuples and groups only: it does the same with other output rows. -/
def IgnoresRows {α : Type} (x : Upkeep α) : Prop :=
  ∀ view rows : View, x (view.withRows rows) =
    match x view with
    | .ok a after => .ok a (after.withRows rows)
    | .error error after => .error error (after.withRows rows)

namespace IgnoresRows

variable {α β : Type}

theorem pure (a : α) : IgnoresRows (pure a : Upkeep α) := fun _ _ => rfl

theorem throw (error : EvalError) : IgnoresRows (throw error : Upkeep α) := fun _ _ => rfl

theorem ofExcept (x : Except EvalError α) : IgnoresRows (Upkeep.ofExcept x) := by
  cases x with
  | error error => exact throw error
  | ok a => exact pure a

theorem modify {f : View → View} (h : ∀ view rows, f (view.withRows rows) = (f view).withRows rows) :
    IgnoresRows (modify f : Upkeep PUnit) :=
  fun view rows => congrArg (EStateM.Result.ok PUnit.unit) (h view rows)

theorem bind {x : Upkeep α} {f : α → Upkeep β} (hx : IgnoresRows x) (hf : ∀ a, IgnoresRows (f a)) :
    IgnoresRows (x >>= f) := by
  intro view rows
  change EStateM.bind x f (view.withRows rows) = match EStateM.bind x f view with
    | .ok a after => _
    | .error error after => _
  unfold EStateM.bind
  rw [hx view rows]
  cases x view with
  | ok a after => exact hf a after rows
  | error error after => rfl

/-- Of the view that is read, the output rows must not matter. -/
theorem get_bind {f : View → Upkeep β} (hread : ∀ view rows : View, f (view.withRows rows) = f view)
    (hf : ∀ view, IgnoresRows (f view)) : IgnoresRows (get >>= f) := by
  intro view rows
  change f (view.withRows rows) (view.withRows rows) = match f view view with
    | .ok a after => _
    | .error error after => _
  rw [hread]
  exact hf view view rows

/-- The output rows are left as they are. -/
theorem keeps {x : Upkeep α} (hx : IgnoresRows x) :
    Keeps (fun view => (view.staged, view.shown)) x := by
  intro view
  have hrun : x view = _ := hx view view
  rw [hrun]
  cases x view <;> rfl

theorem keepsShown {x : Upkeep α} (hx : IgnoresRows x) : Keeps View.shown x :=
  fun view => congrArg Prod.snd (hx.keeps view)

end IgnoresRows

namespace Blueprint

variable (b : Blueprint) (ev : Evaluator) (outer : List Frame)

theorem ignoresRows_leaveGroup (groupKey key : Key) (env : List Scalar) :
    IgnoresRows (b.leaveGroup ev outer groupKey key env) := by
  refine IgnoresRows.get_bind (fun _ _ => rfl) fun view => ?_
  split
  · exact .throw _
  next group _ =>
    obtain ⟨states, outcome⟩ :=
      takeOutAll ev (b.frames outer env) groupKey b.aggregates group.states
    refine IgnoresRows.bind (.modify fun _ _ => rfl) fun _ => ?_
    refine (IgnoresRows.ofExcept _).bind fun _ => ?_
    split
    · exact .modify fun _ _ => rfl
    · exact .pure _

theorem ignoresRows_retract (key : Key) : IgnoresRows (b.retract ev outer key) := by
  refine IgnoresRows.get_bind (fun _ _ => rfl) fun view => ?_
  split
  · exact .pure _
  · refine IgnoresRows.bind (.modify fun _ _ => rfl) fun _ => ?_
    split
    · exact .pure _
    · exact (b.ignoresRows_leaveGroup ev outer _ _ _).bind fun _ => .pure _

theorem ignoresRows_enterGroup (t : Tuple) : IgnoresRows (b.enterGroup ev outer t) := by
  refine (IgnoresRows.ofExcept _).bind fun groupKey => ?_
  refine IgnoresRows.get_bind (fun _ _ => rfl) fun view => ?_
  refine IgnoresRows.bind (.modify fun _ _ => rfl) fun _ => ?_
  refine (IgnoresRows.ofExcept _).bind fun values => ?_
  exact IgnoresRows.bind (.modify fun _ _ => rfl) fun _ => .pure _

theorem ignoresRows_insert (t : Tuple) : IgnoresRows (b.insert ev outer t) := by
  refine IgnoresRows.bind (.modify fun _ _ => rfl) fun _ => ?_
  split
  · refine (b.ignoresRows_enterGroup ev outer t).bind fun _ => ?_
    exact IgnoresRows.bind (.modify fun _ _ => rfl) fun _ => .pure _
  · exact IgnoresRows.bind (.modify fun _ _ => rfl) fun _ => .pure _

theorem ignoresRows_retractAll (keys : List Key) : IgnoresRows (b.retractAll ev outer keys) := by
  induction keys with
  | nil => exact .pure _
  | cons key rest ih =>
      exact (b.ignoresRows_retract ev outer key).bind fun _ => ih.bind fun _ => .pure _

theorem ignoresRows_insertAll (tuples : List Tuple) : IgnoresRows (b.insertAll ev outer tuples) := by
  induction tuples with
  | nil => exact .pure _
  | cons t rest ih =>
      exact (b.ignoresRows_insert ev outer t).bind fun _ => ih.bind fun _ => .pure _

theorem ignoresRows_replaceTuples (outdated : List Key) (added : List Tuple) :
    IgnoresRows (b.replaceTuples ev outer outdated added) :=
  (b.ignoresRows_retractAll ev outer outdated).bind fun _ =>
    (b.ignoresRows_insertAll ev outer added).bind fun _ => .pure _

theorem keepsShown_stageAll (keys : List Key) : Keeps View.shown (b.stageAll ev outer keys) := by
  induction keys with
  | nil => exact Keeps.pure _
  | cons key rest ih =>
      refine Keeps.get.bind fun view => ?_
      refine (Upkeep.keeps_ofExcept _).bind fun _ => ?_
      exact Keeps.bind (Keeps.modify fun _ => rfl) fun _ => ih

/-! ## Publishing -/

/-- The visible rows after an update of touched keys differ from those before only there. -/
theorem get?_foldl_set (keys : List Key) (row : Key → Option Row) (visible : Rows) (k : Key) :
    (keys.foldl (fun visible key => visible.set key (row key)) visible).get? k
      = if k ∈ keys then row k else visible.get? k := by
  induction keys generalizing visible with
  | nil => simp
  | cons key rest ih =>
      rw [List.foldl_cons, ih, OrdMap.get?_set]
      by_cases hrest : k ∈ rest <;> by_cases hkey : k = key <;> simp [hrest, hkey]

/-- The visible rows that are published for touched keys, in their order. -/
def published (touched : List Key) (view : View) : Rows × List Key :=
  if b.body.isWindowed then
    let rows := b.body.window view.staged
    (OrdMap.ofList rows, rows.map Prod.fst)
  else
    (touched.foldl
      (fun visible key => visible.set key ((view.staged.get? key).map StagedRow.row))
      view.visible, view.order)

/-- Publishing never fails; it tells exactly what it changes of the visible rows. -/
theorem publish_exact (touched : List Key) (view : View) :
    ∃ changes, b.publish touched view = .ok changes
        { view with
          visible := (b.published touched view).1
          order := (b.published touched view).2 } ∧
      Change.Exact view.visible (b.published touched view).1 changes := by
  by_cases hwindow : b.body.isWindowed = true
  · refine ⟨changesBetween view.visible (b.published touched view).1
      ((b.published touched view).1.keys ++ view.visible.keys), ?_, ?_⟩
    · simp only [publish, published, hwindow, if_true]
      rfl
    · refine exact_changesBetween fun k hk => ?_
      by_contra hmem
      obtain ⟨hnew, hold⟩ := not_or.1 (mt List.mem_append.2 hmem)
      exact hk ((OrdMap.not_mem_keys.1 hold).trans (OrdMap.not_mem_keys.1 hnew).symm)
  · refine ⟨changesBetween view.visible (b.published touched view).1 touched, ?_, ?_⟩
    · simp only [publish, published, hwindow]
      rfl
    · refine exact_changesBetween fun k hk => ?_
      by_contra hmem
      simp [published, hwindow, get?_foldl_set, hmem] at hk

theorem listsVisible_published (touched : List Key) (view : View) :
    View.ListsVisible b
      { view with
        visible := (b.published touched view).1
        order := (b.published touched view).2 } where
  nodup := by
    unfold View.output published
    split
    · have hnodup := b.body.nodup_window view.staged
      exact (filterMap_get?_ofList hnodup).symm ▸ hnodup
    · exact OrdMap.nodup_keys _
  keyed_eq := by
    unfold View.output published keyed
    split
    · exact congrArg OrdMap.ofList (filterMap_get?_ofList (b.body.nodup_window _))
    · exact OrdMap.ofList_entries _

/-! ## Both ways of upkeep -/

/-- An operation that shows its result at the very end: when it fails, nothing of what is
shown has changed, otherwise it tells exactly what has. -/
structure PublishesLast (x : Upkeep (List Change)) : Prop where
  onFailure : ∀ {view after error}, x view = .error error after → after.shown = view.shown
  exact : ∀ {view after changes}, x view = .ok changes after →
    Change.Exact view.visible after.visible changes
  lists : ∀ {view after changes}, x view = .ok changes after →
    view.ListsVisible b → after.ListsVisible b

namespace PublishesLast

variable {b}

theorem bind {α : Type} {x : Upkeep α} {f : α → Upkeep (List Change)}
    (hx : Keeps View.shown x) (hf : ∀ a, PublishesLast b (f a)) : PublishesLast b (x >>= f) where
  onFailure h := by
    rcases bind_eq_error.1 h with h | ⟨a, between, hbetween, h⟩
    · exact hx.of_error h
    · exact ((hf a).onFailure h).trans (hx.of_ok hbetween)
  exact h := by
    obtain ⟨a, between, hbetween, h⟩ := bind_eq_ok.1 h
    have hshown := hx.of_ok hbetween
    rw [← (Prod.mk.inj hshown).1]
    exact (hf a).exact h
  lists h hlists := by
    obtain ⟨a, between, hbetween, h⟩ := bind_eq_ok.1 h
    exact (hf a).lists h (hlists.of_shown (hx.of_ok hbetween))

/-- Nothing is told where nothing is done. -/
theorem pure_nil : PublishesLast b (pure []) where
  onFailure h := by cases h
  exact h := by
    cases h
    exact Change.Exact.refl _
  lists h hlists := by
    cases h
    exact hlists

end PublishesLast

theorem publishesLast_publish (touched : List Key) : PublishesLast b (b.publish touched) where
  onFailure {view} _ _ h := by
    obtain ⟨changes, hrun, _⟩ := b.publish_exact touched view
    rw [hrun] at h
    cases h
  exact {view} _ _ h := by
    obtain ⟨changes, hrun, hexact⟩ := b.publish_exact touched view
    rw [hrun] at h
    cases h
    exact hexact
  lists {view} _ _ h _ := by
    obtain ⟨changes, hrun, _⟩ := b.publish_exact touched view
    rw [hrun] at h
    cases h
    exact b.listsVisible_published touched view

theorem publishesLast_refresh (touched : List Key) :
    PublishesLast b (b.refresh ev outer touched) :=
  .bind (b.keepsShown_stageAll ev outer _) fun _ => b.publishesLast_publish _

/-- The view that is derived anew: a nested body's starts empty but for what it shows. -/
def startFrom (view : View) : View :=
  if b.nested then { b.emptyView with visible := view.visible, order := view.order } else view

/-- Deriving all tuples, once the view to start from is set. -/
def rederiveFrom (before : View) : Upkeep (List Change) := do
  let derived := byKey (← Upkeep.ofExcept (b.joins.enumerate ev outer none))
  let view ← get
  let touched ← b.replaceTuples ev outer (outdated view derived view.tuples.keys)
    (newTuples view derived)
  let after ← get
  let known := if b.nested then before.visible.keys else []
  let groups := if after.staged.isEmpty then after.groups.keys else []
  b.refresh ev outer (known ++ touched ++ groups)

theorem rederive_eq (view : View) :
    b.rederive ev outer view = b.rederiveFrom ev outer view (b.startFrom view) := by
  unfold rederive rederiveFrom startFrom
  cases b.nested <;> rfl

@[simp] theorem shown_startFrom (view : View) : (b.startFrom view).shown = view.shown := by
  unfold startFrom
  split <;> rfl

theorem publishesLast_rederiveFrom (before : View) :
    PublishesLast b (b.rederiveFrom ev outer before) := by
  refine .bind (Upkeep.keeps_ofExcept _) fun tuples => ?_
  refine .bind Keeps.get fun view => ?_
  refine .bind (b.ignoresRows_replaceTuples ev outer _ _).keepsShown fun touched => ?_
  exact .bind Keeps.get fun after => b.publishesLast_refresh ev outer _

theorem publishesLast_rederive : PublishesLast b (b.rederive ev outer) where
  onFailure {view} _ _ h := by
    rw [rederive_eq] at h
    exact ((b.publishesLast_rederiveFrom ev outer view).onFailure h).trans (b.shown_startFrom view)
  exact {view} _ _ h := by
    rw [rederive_eq] at h
    rw [← (Prod.mk.inj (b.shown_startFrom view)).1]
    exact (b.publishesLast_rederiveFrom ev outer view).exact h
  lists {view} _ _ h hlists := by
    rw [rederive_eq] at h
    exact (b.publishesLast_rederiveFrom ev outer view).lists h
      (hlists.of_shown (b.shown_startFrom view))

theorem publishesLast_follow (changed : List (Nat × List Key)) :
    PublishesLast b (b.follow ev changed) := by
  refine .bind (Upkeep.keeps_ofExcept _) fun tuples => ?_
  refine .bind Keeps.get fun view => ?_
  exact .bind (b.ignoresRows_replaceTuples ev [] _ _).keepsShown fun touched =>
    b.publishesLast_refresh ev [] _

end Blueprint

end LiveQuery
