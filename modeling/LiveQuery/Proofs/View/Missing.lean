import LiveQuery.Proofs.Missing
import LiveQuery.Proofs.View.Groups
import LiveQuery.Proofs.View.Upholding
import LiveQuery.Proofs.View.Window

/-!
# Missing values in views

A tuple binds a row to each of its sources, or a missing value where nothing joins. So what the
expressions of a body read in the frames of a tuple is missing or complete, also what is read for
the first tuple of a group and what the aggregates of the group have kept.

**Invariant.** `View.Clean`, maintained when all rows that are read are complete
(`Blueprint.Supplied.upholds`), also when upkeep fails.

**Results.** `Blueprint.Supplied.safe_rederive`, `Blueprint.Supplied.safe_follow`.
-/

namespace LiveQuery

/-- The values that a tuple binds are missing or complete. -/
def Tuple.Clean (t : Tuple) : Prop :=
  ∀ value ∈ t.env, value.Clean

/-- What is read for a body is complete: its literals, and in clean frames the output of its
subqueries and the rows of its sources. -/
structure Blueprint.Supplied (b : Blueprint) (ev : Evaluator) : Prop where
  exprs : ev.Supplied b.occurring
  rows : ∀ step ∈ b.joins.steps, ∀ frames, (∀ frame ∈ frames, frame.Clean) →
    Except.Yields Rows.Complete (ev.inputs.rows step.source frames)

/-- The tuples of a view bind clean values, its groups keep complete ones, and its rows are
complete. -/
structure View.Clean (view : View) : Prop where
  tuples : ∀ key bound, view.tuples.get? key = some bound → ∀ value ∈ bound.env, value.Clean
  groups : ∀ key group, view.groups.get? key = some group → ∀ state ∈ group.states, state.Clean
  staged : ∀ key made, view.staged.get? key = some made → made.row.Complete
  visible : view.visible.Complete

/-! ## Joins -/

namespace PartialTuple

/-- The values bound so far are missing or complete. -/
def Clean (t : PartialTuple) : Prop :=
  ∀ value ∈ t.env, value.Clean

variable {t : PartialTuple}

theorem Clean.bind (h : t.Clean) {entry : Key × Row} (hentry : entry.2.Complete) :
    (t.bind entry).Clean :=
  List.forall_mem_append.2 ⟨h, fun _ hmem => List.mem_singleton.1 hmem ▸ .inr hentry⟩

theorem Clean.skip (h : t.Clean) : t.skip.Clean :=
  List.forall_mem_append.2 ⟨h, fun _ hmem => .inl (List.mem_singleton.1 hmem)⟩

theorem clean_missing (n : Nat) : (missing n).Clean :=
  fun _ hmem => .inl (List.eq_of_mem_replicate hmem)

end PartialTuple

/-- Values that a body binds make a clean frame. -/
theorem Frame.clean_of_env {body : BodyId} {env : List Scalar} (h : ∀ value ∈ env, value.Clean) :
    Frame.Clean { body, env } :=
  ⟨h, fun _ hvalues => by cases hvalues⟩

namespace JoinPlan

variable {ev : Evaluator} {body : BodyId} {outer : List Frame} {step : JoinStep}

theorem clean_frames {env : List Scalar} (henv : ∀ value ∈ env, value.Clean)
    (houter : ∀ frame ∈ outer, frame.Clean) : ∀ frame ∈ frames body outer env, frame.Clean :=
  List.forall_mem_cons.2 ⟨Frame.clean_of_env henv, houter⟩

theorem clean_extended {t : PartialTuple} (ht : t.Clean) {entries : List (Key × Row)}
    (hentries : ∀ entry ∈ entries, entry.2.Complete) :
    ∀ next ∈ extended step t entries, next.Clean := by
  unfold extended
  split
  · exact fun next hnext => List.mem_singleton.1 hnext ▸ ht.skip
  · intro next hnext
    obtain ⟨entry, hentry, rfl⟩ := List.mem_map.1 hnext
    exact ht.bind (hentries entry hentry)

section

variable (houter : ∀ frame ∈ outer, frame.Clean)

include houter

theorem yields_extendAll
    (hrows : ∀ frames, (∀ frame ∈ frames, frame.Clean) →
      Except.Yields Rows.Complete (ev.inputs.rows step.source frames))
    {shared : Option Rows} (hshared : ∀ rows ∈ shared, rows.Complete) {tuples : List PartialTuple}
    (htuples : ∀ t ∈ tuples, t.Clean) :
    Except.Yields (fun extended => ∀ t ∈ extended.1, t.Clean)
      (extendAll ev body outer step shared tuples) := by
  induction tuples with
  | nil => exact .ok fun _ hmem => absurd hmem List.not_mem_nil
  | cons t rest ih =>
      obtain ⟨ht, hrest⟩ := List.forall_mem_cons.1 htuples
      -- the entries that join are among the rows
      have hmatching {rows : Rows} (hcomplete : rows.Complete) :
          Except.Yields (fun entries => ∀ entry ∈ entries, entry.2.Complete)
            (matching ev body outer step t rows.entries) := by
        intro entries hentries
        obtain ⟨-, rfl⟩ := matching_eq_ok.1 hentries
        exact fun entry hmem => hcomplete.mem entry (List.mem_filter.1 hmem).1
      have hjoined {rows : Rows} (hcomplete : rows.Complete) :
          Except.Yields (fun extended => ∀ t ∈ extended.1, t.Clean) (do
            let entries ← matching ev body outer step t rows.entries
            let others ← extendAll ev body outer step shared rest
            return (extended step t entries ++ others.1, entries.map Prod.fst ++ others.2)) :=
        (hmatching hcomplete).bind fun entries hentries => (ih hrest).bind fun others hothers =>
          .ok (List.forall_mem_append.2 ⟨clean_extended ht hentries, hothers⟩)
      cases shared with
      | some rows => exact hjoined (hshared rows rfl)
      | none =>
          exact (hrows _ (clean_frames ht houter)).bind fun rows hcomplete => hjoined hcomplete

theorem yields_runStep
    (hrows : ∀ frames, (∀ frame ∈ frames, frame.Clean) →
      Except.Yields Rows.Complete (ev.inputs.rows step.source frames))
    (position : Nat) {shared : Option Rows} (hshared : ∀ rows ∈ shared, rows.Complete)
    {tuples : List PartialTuple} (htuples : ∀ t ∈ tuples, t.Clean) :
    Except.Yields (fun tuples => ∀ t ∈ tuples, t.Clean)
      (runStep ev body outer step position shared tuples) := by
  unfold runStep
  refine (yields_extendAll houter hrows hshared htuples).bind fun joined hjoined => ?_
  obtain ⟨joined, matched⟩ := joined
  dsimp only
  split
  next rows hkeeps =>
    refine .ok (List.forall_mem_append.2 ⟨hjoined, fun t ht => ?_⟩)
    obtain ⟨entry, hentry, rfl⟩ := List.mem_map.1 ht
    exact (PartialTuple.clean_missing position).bind
      ((hshared rows rfl).mem entry (List.mem_filter.1 hentry).1)
  · exact .ok hjoined

theorem yields_sharedRows
    (hrows : ∀ frames, (∀ frame ∈ frames, frame.Clean) →
      Except.Yields Rows.Complete (ev.inputs.rows step.source frames))
    {fixed : Option (Nat × Rows)} (hfixed : ∀ given ∈ fixed, given.2.Complete) (position : Nat) :
    Except.Yields (fun shared => ∀ rows ∈ shared, rows.Complete)
      (sharedRows ev outer fixed step position) := by
  have hread : Except.Yields (fun shared : Option Rows => ∀ rows ∈ shared, rows.Complete)
      (some <$> ev.inputs.rows step.source outer) :=
    (hrows outer houter).map fun rows hcomplete _ hmem => Option.mem_some_iff.1 hmem ▸ hcomplete
  have hnone : Except.Yields (fun shared : Option Rows => ∀ rows ∈ shared, rows.Complete)
      (.ok none : Except EvalError _) := .ok fun _ hmem => absurd hmem (Option.not_mem_none _)
  unfold sharedRows
  split
  next p rows =>
    split
    · exact .ok fun _ hmem => Option.mem_some_iff.1 hmem ▸ hfixed _ rfl
    · split
      · exact hnone
      · exact hread
  · split
    · exact hnone
    · exact hread

theorem yields_runSteps {steps : List JoinStep}
    (hrows : ∀ step ∈ steps, ∀ frames, (∀ frame ∈ frames, frame.Clean) →
      Except.Yields Rows.Complete (ev.inputs.rows step.source frames))
    {fixed : Option (Nat × Rows)} (hfixed : ∀ given ∈ fixed, given.2.Complete) (position : Nat)
    {tuples : List PartialTuple} (htuples : ∀ t ∈ tuples, t.Clean) :
    Except.Yields (fun tuples => ∀ t ∈ tuples, t.Clean)
      (runSteps ev body outer fixed position tuples steps) := by
  induction steps generalizing position tuples with
  | nil => exact .ok htuples
  | cons step rest ih =>
      obtain ⟨hstep, hrest⟩ := List.forall_mem_cons.1 hrows
      unfold runSteps
      refine (yields_sharedRows houter hstep hfixed position).bind fun shared hshared => ?_
      exact (yields_runStep houter hstep position hshared htuples).bind
        fun tuples htuples => ih hrest _ htuples

end

theorem yields_filtered (filter : Option Expr) {tuples : List PartialTuple}
    (htuples : ∀ t ∈ tuples, t.Clean) :
    Except.Yields (fun ts => ∀ t ∈ ts, t.Clean) (filtered ev body outer filter tuples) := by
  intro ts hts
  obtain ⟨-, rfl⟩ := (Except.filter_eq_ok (f := filtered ev body outer filter)
    (g := PartialTuple.complete) rfl fun _ _ => rfl).1 hts
  intro _ hmem
  obtain ⟨t, ht, rfl⟩ := List.mem_map.1 hmem
  exact htuples t (List.mem_filter.1 ht).1

end JoinPlan

namespace Blueprint

variable {b : Blueprint} {ev : Evaluator} {outer : List Frame} {view : View}

/-! ## What is read -/

namespace Supplied

variable (h : b.Supplied ev)

include h

theorem yields_enumerate (houter : ∀ frame ∈ outer, frame.Clean) {fixed : Option (Nat × Rows)}
    (hfixed : ∀ given ∈ fixed, given.2.Complete) :
    Except.Yields (fun ts => ∀ t ∈ ts, t.Clean) (b.joins.enumerate ev outer fixed) := by
  have hstart : ∀ t ∈ [({} : PartialTuple)], t.Clean :=
    fun t ht => List.mem_singleton.1 ht ▸ fun _ hmem => absurd hmem List.not_mem_nil
  exact (JoinPlan.yields_runSteps houter h.rows hfixed 0 hstart).bind
    fun tuples htuples => JoinPlan.yields_filtered _ htuples

theorem yields_deriveAllChanged (changed : List (Nat × List Key)) :
    Except.Yields (fun ts => ∀ t ∈ ts, t.Clean) (b.deriveAllChanged ev changed) := by
  induction changed with
  | nil => exact .ok fun _ hmem => absurd hmem List.not_mem_nil
  | cons entry rest ih =>
      have hnone : ∀ frame ∈ ([] : List Frame), frame.Clean :=
        fun _ hmem => absurd hmem List.not_mem_nil
      have hfirst : Except.Yields (fun ts => ∀ t ∈ ts, t.Clean)
          (b.deriveChanged ev entry.1 entry.2) := by
        unfold deriveChanged
        split
        · exact .ok fun _ hmem => absurd hmem List.not_mem_nil
        next step hstep =>
          refine (h.rows step (List.mem_of_getElem? hstep) [] hnone).bind fun current hcurrent => ?_
          refine h.yields_enumerate hnone fun given hgiven => ?_
          rw [← Option.mem_some_iff.1 hgiven]
          refine .ofList fun found hfound => ?_
          obtain ⟨key, -, hkey⟩ := List.mem_filterMap.1 hfound
          obtain ⟨row, hrow, rfl⟩ := Option.map_eq_some_iff.1 hkey
          exact hcurrent key row hrow
      refine hfirst.bind fun ts hts => ih.bind fun others hothers => .ok ?_
      exact List.forall_mem_append.2 ⟨hts, hothers⟩

/-- What is put out for a tuple or a group of a clean view is complete. -/
theorem yields_stagedRow (houter : ∀ frame ∈ outer, frame.Clean) (hview : view.Clean) (key : Key) :
    Except.Yields (fun made => ∀ staged ∈ made, staged.row.Complete)
      (b.stagedRow ev outer view key) := by
  have hnone : Except.Yields (fun made : Option StagedRow => ∀ staged ∈ made, staged.row.Complete)
      (.ok none : Except EvalError _) := .ok fun _ hmem => absurd hmem (Option.not_mem_none _)
  have hproject {frames : List Frame} (hframes : ∀ frame ∈ frames, frame.Clean) :
      Except.Yields (fun made : Option StagedRow => ∀ staged ∈ made, staged.row.Complete)
        (do return some (← ev.project frames b.body)) := by
    refine (h.exprs.yields_project hframes (b.occurring_of_expressions fun e he => ?_)).bind
      fun made hmade => .ok fun _ hmem => Option.mem_some_iff.1 hmem ▸ hmade
    simp [Body.expressions, he]
  unfold stagedRow
  split
  · cases hgroup : view.groups.get? key with
    | none => exact hnone
    | some group =>
        have henv : ∀ value ∈ b.groupEnv view group, value.Clean := by
          unfold groupEnv
          dsimp only
          split
          next bound hbound =>
            obtain ⟨member, -, hbound⟩ := Option.bind_eq_some_iff.1 hbound
            exact hview.tuples _ bound hbound
          · intro value hvalue
            obtain ⟨_, -, rfl⟩ := List.mem_map.1 hvalue
            exact Scalar.clean_undefined
        have hframes : ∀ frame ∈ b.groupFrames outer view group, frame.Clean := by
          refine List.forall_mem_cons.2 ⟨⟨henv, fun values hvalues entry hentry => ?_⟩, houter⟩
          cases hvalues
          obtain ⟨state, hstate, heq⟩ := List.mem_map.1 (List.of_mem_zip hentry).2
          exact heq ▸ (hview.groups key group hgroup state hstate).complete_value.clean
        intro made hmade
        obtain ⟨kept, -, hmade⟩ := Except.bind_eq_ok.1 hmade
        split at hmade
        · exact hproject hframes made hmade
        · exact hnone made hmade
  · cases htuple : view.tuples.get? key with
    | none => exact hnone
    | some bound => exact hproject (JoinPlan.clean_frames (hview.tuples key bound htuple) houter)

end Supplied

end Blueprint

/-! ## What upkeep maintains -/

theorem clean_takeOutAll (ev : Evaluator) (frames : List Frame) (group : Key) (exprs : List Expr)
    {states : List Accumulator} (h : ∀ state ∈ states, state.Clean) :
    ∀ state ∈ (takeOutAll ev frames group exprs states).1, state.Clean := by
  induction exprs generalizing states with
  | nil => exact h
  | cons e rest ih =>
      cases states with
      | nil => exact h
      | cons state states =>
          obtain ⟨hstate, hstates⟩ := List.forall_mem_cons.1 h
          unfold takeOutAll
          split
          · exact h
          · split
            · exact h
            next left hleft => exact List.forall_mem_cons.2 ⟨hstate.takeOut? hleft, ih hstates⟩

namespace View.Clean

variable {view : View}

theorem emptyView (b : Blueprint) : b.emptyView.Clean where
  tuples _ _ h := by cases h
  groups key group hgroup := by
    obtain ⟨-, -, rfl⟩ := Blueprint.group_of_emptyView hgroup
    intro state hstate
    obtain ⟨e, -, rfl⟩ := List.mem_map.1 hstate
    split <;> exact Accumulator.clean_start _ _
  staged _ _ h := by cases h
  visible := .empty

theorem setGroup (h : view.Clean) (groupKey : Key) {group : Group}
    (hgroup : ∀ state ∈ group.states, state.Clean) : (view.setGroup groupKey group).Clean where
  tuples := h.tuples
  staged := h.staged
  visible := h.visible
  groups key found hfound := by
    change (view.groups.insert groupKey group).get? key = some found at hfound
    rw [OrdMap.get?_insert_eq] at hfound
    split at hfound
    · cases hfound
      exact hgroup
    · exact h.groups key found hfound

theorem removeGroup (h : view.Clean) (groupKey : Key) : (view.removeGroup groupKey).Clean where
  tuples := h.tuples
  staged := h.staged
  visible := h.visible
  groups key found hfound := by
    change (view.groups.erase groupKey).get? key = some found at hfound
    rw [OrdMap.get?_erase_eq] at hfound
    split at hfound
    · cases hfound
    · exact h.groups key found hfound

theorem removeTuple (h : view.Clean) (key : Key) : (view.removeTuple key).Clean where
  groups := h.groups
  staged := h.staged
  visible := h.visible
  tuples k bound hbound := by
    change (view.tuples.erase key).get? k = some bound at hbound
    rw [OrdMap.get?_erase_eq] at hbound
    split at hbound
    · cases hbound
    · exact h.tuples k bound hbound

theorem addTuple (h : view.Clean) {t : Tuple} (ht : t.Clean) (group : Option Key) :
    (view.addTuple t group).Clean where
  groups := h.groups
  staged := h.staged
  visible := h.visible
  tuples k bound hbound := by
    change (view.tuples.insert t.key { env := t.env, group }).get? k = some bound at hbound
    rw [OrdMap.get?_insert_eq] at hbound
    split at hbound
    · cases hbound
      exact ht
    · exact h.tuples k bound hbound

/-- The group of a key, or a new one. -/
theorem states_getD (h : view.Clean) (b : Blueprint) (groupKey : Key) :
    ∀ state ∈ ((view.groups.get? groupKey).getD b.emptyGroup).states, state.Clean := by
  cases hgroup : view.groups.get? groupKey with
  | some group => exact h.groups groupKey group hgroup
  | none =>
      intro state hstate
      obtain ⟨e, -, rfl⟩ := List.mem_map.1 hstate
      split <;> exact Accumulator.clean_start _ _

end View.Clean

namespace Blueprint.Supplied

variable {b : Blueprint} {ev : Evaluator} {outer : List Frame} {view : View} (h : b.Supplied ev)

include h

/-- Where all that is read is complete, views stay clean. -/
theorem upholds (houter : ∀ frame ∈ outer, frame.Clean) :
    b.Upholds ev outer View.Clean Tuple.Clean where
  removed key hview := hview.removeTuple key
  left members env hview hgroup :=
    hview.setGroup _ (clean_takeOutAll ev _ _ _ (hview.groups _ _ hgroup))
  emptied groupKey hview := hview.removeGroup groupKey
  indexed _ hview := ⟨hview.tuples, hview.groups, hview.staged, hview.visible⟩
  opened hview _ _ := hview.setGroup _ (hview.states_getD b _)
  entered {view t groupKey group values} hview ht _ hgroup hvalues := by
    have hfolded : ∀ value ∈ values, value.Clean :=
      h.exprs.yields_aggregatedAll (JoinPlan.clean_frames ht houter)
        b.occurring_of_aggregates values hvalues
    refine hview.setGroup _ fun state hstate => ?_
    obtain ⟨i, hi, rfl⟩ := List.mem_iff_getElem.1 hstate
    rw [List.getElem_zipWith]
    exact (hview.groups _ _ hgroup _ (List.getElem_mem _)).add (hfolded _ (List.getElem_mem _))
  added group hview ht := hview.addTuple ht group
  staged {view key made} hview hmade := by
    refine ⟨hview.tuples, hview.groups, fun k row hk => ?_, hview.visible⟩
    change (view.staged.set key made).get? k = some row at hk
    rw [OrdMap.get?_set] at hk
    split at hk
    · exact h.yields_stagedRow houter hview key made hmade row hk
    · exact hview.staged k row hk
  published touched hview := by
    refine ⟨hview.tuples, hview.groups, hview.staged, fun key row hrow => ?_⟩
    rcases exists_of_published hrow with ⟨k, made, hk, rfl⟩ | hrow
    · exact hview.staged k made hk
    · exact hview.visible key row hrow
  started {view} hview := by
    unfold startFrom
    split
    · have hempty := View.Clean.emptyView b
      exact ⟨hempty.tuples, hempty.groups, hempty.staged, hview.visible⟩
    · exact hview

theorem safe_rederive (houter : ∀ frame ∈ outer, frame.Clean) (hview : view.Clean) :
    Safe View.Clean (fun _ => True) (b.rederive ev outer) view :=
  (h.upholds houter).safe_rederive
    (h.yields_enumerate houter fun _ hmem => absurd hmem (Option.not_mem_none _)) hview

theorem safe_follow (changed : List (Nat × List Key)) (hview : view.Clean) :
    Safe View.Clean (fun _ => True) (b.follow ev changed) view :=
  (h.upholds fun _ hmem => absurd hmem List.not_mem_nil).safe_follow changed
    (fun changed => h.yields_deriveAllChanged changed) hview

end Blueprint.Supplied

end LiveQuery
