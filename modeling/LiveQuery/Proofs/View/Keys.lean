import LiveQuery.Proofs.Join.Keys
import LiveQuery.Proofs.View.Tuples
import LiveQuery.Proofs.View.Upholding

/-!
# Keys of output rows

A body puts out rows whose keys have equally many parts: a part for each source, or for each
expression that it groups by, or only one if the rows are distinct. So the keys of a query's rows
stay apart where they become parts of other keys.

**Results.** `Blueprint.Reached.uniform`, and from it `View.Uniform.apart`.
-/

namespace LiveQuery

/-- All keys have a number of parts. -/
def OrdMap.Wide {ν : Type} (m : OrdMap Key ν) (n : Nat) : Prop :=
  ∀ key ∈ m.keys, key.parts.length = n

namespace OrdMap.Wide

variable {ν : Type} {m : OrdMap Key ν} {n : Nat}

theorem empty : (OrdMap.empty : OrdMap Key ν).Wide n :=
  fun _ h => by cases h

theorem insert (h : m.Wide n) {key : Key} (hkey : key.parts.length = n) (value : ν) :
    (m.insert key value).Wide n := by
  intro k hk
  rcases OrdMap.mem_keys_insert.1 hk with rfl | hk
  · exact hkey
  · exact h k hk

theorem erase (h : m.Wide n) (key : Key) : (m.erase key).Wide n := by
  intro k hk
  obtain ⟨value, hvalue⟩ := OrdMap.mem_keys.1 hk
  rw [OrdMap.get?_erase_eq] at hvalue
  split at hvalue
  · cases hvalue
  · exact h k (OrdMap.mem_keys.2 ⟨value, hvalue⟩)

theorem ofList {entries : List (Key × ν)} (h : ∀ entry ∈ entries, entry.1.parts.length = n) :
    (OrdMap.ofList entries).Wide n := by
  intro k hk
  obtain ⟨value, hvalue⟩ := OrdMap.mem_keys.1 hk
  exact h _ (OrdMap.mem_of_get?_ofList hvalue)

theorem of_get? (h : m.Wide n) {key : Key} {value : ν} (hvalue : m.get? key = some value) :
    key.parts.length = n :=
  h key (OrdMap.mem_keys.2 ⟨value, hvalue⟩)

end OrdMap.Wide

namespace Blueprint

/-- How many parts the keys of the rows have before the window. -/
def width (b : Blueprint) : Nat :=
  if b.grouped then b.body.groupExprs.length else b.joins.steps.length

/-- How many parts the keys of the visible rows have. -/
def visibleWidth (b : Blueprint) : Nat :=
  if b.body.distinct then 1 else b.width

end Blueprint

/-- The keys of a view have the parts that its body gives them. -/
structure View.Uniform (b : Blueprint) (view : View) : Prop where
  tuples : view.tuples.Wide b.joins.steps.length
  groups : view.groups.Wide b.body.groupExprs.length
  staged : view.staged.Wide b.width
  visible : view.visible.Wide b.visibleWidth

namespace View.Uniform

variable {b : Blueprint} {view : View}

theorem emptyView (b : Blueprint) : b.emptyView.Uniform b where
  tuples := .empty
  groups := by
    unfold Blueprint.emptyView
    dsimp only
    split
    next h =>
      have hnone : b.body.groupBy = none := by simp_all
      refine .ofList fun entry hentry => ?_
      rw [List.mem_singleton.1 hentry, Body.groupExprs, hnone]
      rfl
    · exact .empty
  staged := .empty
  visible := .empty

theorem removeTuple (h : view.Uniform b) (key : Key) : (view.removeTuple key).Uniform b :=
  ⟨h.tuples.erase key, h.groups, h.staged, h.visible⟩

theorem indexTuple (h : view.Uniform b) (key : Key) : (view.indexTuple key).Uniform b :=
  ⟨h.tuples, h.groups, h.staged, h.visible⟩

theorem addTuple (h : view.Uniform b) {t : Tuple}
    (ht : t.key.parts.length = b.joins.steps.length) (group : Option Key) :
    (view.addTuple t group).Uniform b :=
  ⟨h.tuples.insert ht _, h.groups, h.staged, h.visible⟩

theorem setGroup (h : view.Uniform b) {key : Key}
    (hkey : key.parts.length = b.body.groupExprs.length) (group : Group) :
    (view.setGroup key group).Uniform b :=
  ⟨h.tuples, h.groups.insert hkey group, h.staged, h.visible⟩

theorem removeGroup (h : view.Uniform b) (key : Key) : (view.removeGroup key).Uniform b :=
  ⟨h.tuples, h.groups.erase key, h.staged, h.visible⟩

/-- The keys of the visible rows stay apart as parts of other keys. -/
theorem apart (h : view.Uniform b) : view.visible.Apart :=
  Rows.apart_of_length h.visible

end View.Uniform

theorem Evaluator.length_of_evalAll {ev : Evaluator} {frames : List Frame} {es : List Expr}
    {values : List Scalar} (h : ev.evalAll frames es = .ok values) : values.length = es.length := by
  induction es generalizing values with
  | nil =>
      cases h
      rfl
  | cons e rest ih =>
      unfold evalAll at h
      obtain ⟨value, -, h⟩ := Except.bind_eq_ok.1 h
      obtain ⟨others, hothers, h⟩ := Except.bind_eq_ok.1 h
      cases h
      exact congrArg (· + 1) (ih hothers)

namespace Blueprint

variable {b : Blueprint} {ev : Evaluator} {outer : List Frame} {view : View}

/-! ## What upkeep maintains -/

theorem length_groupKey {env : List Scalar} {groupKey : Key}
    (h : b.groupKey ev outer env = .ok groupKey) :
    groupKey.parts.length = b.body.groupExprs.length := by
  obtain ⟨values, hvalues, heq⟩ := Except.bind_eq_ok.1 h
  cases heq
  exact Evaluator.length_of_evalAll hvalues

/-- There are rows for keys of tuples or of groups only. -/
theorem length_of_stagedRow {key : Key} {staged : StagedRow} (h : view.Uniform b)
    (hstaged : b.stagedRow ev outer view key = .ok (some staged)) :
    key.parts.length = b.width := by
  unfold stagedRow at hstaged
  split at hstaged
  next hgrouped =>
    rw [width, if_pos hgrouped]
    cases hgroup : view.groups.get? key with
    | none =>
        rw [hgroup] at hstaged
        cases hstaged
    | some group => exact h.groups.of_get? hgroup
  next hsingle =>
    rw [width, if_neg hsingle]
    cases htuple : view.tuples.get? key with
    | none =>
        rw [htuple] at hstaged
        cases hstaged
    | some bound => exact h.tuples.of_get? htuple

theorem wide_window (h : view.Uniform b) :
    ∀ entry ∈ b.body.window view.staged, entry.1.parts.length = b.visibleWidth := by
  have hcandidates : ∀ entry ∈ b.body.candidates view.staged,
      entry.1.parts.length = b.visibleWidth := by
    intro entry hentry
    unfold Body.candidates at hentry
    split at hentry
    next hdistinct =>
      rw [visibleWidth, if_pos hdistinct]
      obtain ⟨staged, -, rfl⟩ := List.mem_map.1 hentry
      rfl
    next hall =>
      rw [visibleWidth, if_neg hall]
      exact h.staged entry.1 (List.mem_map_of_mem hentry)
  intro entry hentry
  obtain ⟨staged, hstaged, rfl⟩ := List.mem_map.1 hentry
  refine hcandidates staged ?_
  have hrest := hstaged
  split at hrest
  · exact List.mem_mergeSort.1 (List.mem_of_mem_drop (List.mem_of_mem_take hrest))
  · exact List.mem_mergeSort.1 (List.mem_of_mem_drop hrest)

theorem wide_published (touched : List Key) (h : view.Uniform b) :
    (b.published touched view).1.Wide b.visibleWidth := by
  unfold published
  split
  · exact .ofList (wide_window h)
  next hwindow =>
    -- nothing is made distinct where there is no window
    have hdistinct : b.body.distinct = false := by simp_all [Body.isWindowed]
    intro key hkey
    obtain ⟨row, hrow⟩ := OrdMap.mem_keys.1 hkey
    rw [get?_foldl_set] at hrow
    split at hrow
    · obtain ⟨staged, hstaged, -⟩ := Option.map_eq_some_iff.1 hrow
      rw [visibleWidth, hdistinct]
      exact h.staged.of_get? hstaged
    · exact h.visible.of_get? hrow

/-- Each change maintains the numbers of parts, if the keys of new tuples have a part for each
step. -/
theorem upholds_uniform (b : Blueprint) (ev : Evaluator) (outer : List Frame) :
    b.Upholds ev outer (View.Uniform b) fun t => t.key.parts.length = b.joins.steps.length where
  removed key h := h.removeTuple key
  left _ _ h hgroup := h.setGroup (h.groups.of_get? hgroup) _
  emptied groupKey h := h.removeGroup groupKey
  indexed key h := h.indexTuple key
  opened h _ hkey := h.setGroup (length_groupKey hkey) _
  entered h _ hkey _ _ := h.setGroup (length_groupKey hkey) _
  added group h ht := h.addTuple ht group
  staged {_ key made} h hmade := by
    refine ⟨h.tuples, h.groups, ?_, h.visible⟩
    cases made with
    | none => exact h.staged.erase key
    | some row => exact h.staged.insert (length_of_stagedRow h hmade) row
  published touched h := ⟨h.tuples, h.groups, h.staged, wide_published touched h⟩
  started h := by
    unfold startFrom
    split
    · have hempty := View.Uniform.emptyView b
      exact ⟨hempty.tuples, hempty.groups, hempty.staged, h.visible⟩
    · exact h

theorem length_deriveAllChanged {changed : List (Nat × List Key)} {ts : List Tuple}
    (h : b.deriveAllChanged ev changed = .ok ts) :
    ∀ t ∈ ts, t.key.parts.length = b.joins.steps.length := by
  induction changed generalizing ts with
  | nil =>
      cases h
      exact fun t ht => absurd ht List.not_mem_nil
  | cons entry rest ih =>
      obtain ⟨first, hfirst, h⟩ := Except.bind_eq_ok.1 h
      obtain ⟨others, hothers, h⟩ := Except.bind_eq_ok.1 h
      cases h
      refine List.forall_mem_append.2 ⟨?_, ih hothers⟩
      unfold deriveChanged at hfirst
      split at hfirst
      · cases hfirst
        exact fun t ht => absurd ht List.not_mem_nil
      · obtain ⟨current, -, hfirst⟩ := Except.bind_eq_ok.1 hfirst
        exact JoinPlan.length_enumerate hfirst

/-- The keys of a view have the parts that its body gives them, whatever upkeep does. -/
theorem Reached.uniform (h : b.Reached view) : view.Uniform b := by
  induction h with
  | empty => exact .emptyView b
  | rederive _ ev outer ih =>
      exact ((b.upholds_uniform ev outer).safe_rederive
        (fun _ => JoinPlan.length_enumerate) ih).after
  | follow _ ev changed ih =>
      exact ((b.upholds_uniform ev []).safe_follow changed
        (fun _ _ => length_deriveAllChanged) ih).after

end Blueprint

end LiveQuery
