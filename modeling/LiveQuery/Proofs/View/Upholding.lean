import LiveQuery.Proofs.View.Output

/-!
# What upkeep upholds

Upkeep changes a view in few ways: a tuple is taken out or added, in the index, among the tuples and
in a group; an output row is made again; the visible rows follow. A property of views that each of
these maintains is maintained by all upkeep, also when it fails.

**Results.** `Blueprint.Upholds.safe_rederive` and `Blueprint.Upholds.safe_follow`.
-/

namespace LiveQuery

namespace Blueprint

/-- A property of views is maintained by each change that upkeep makes. Only tuples with a given
property are added. -/
structure Upholds (b : Blueprint) (ev : Evaluator) (outer : List Frame) (P : View → Prop)
    (T : Tuple → Prop) : Prop where
  removed : ∀ {view} key, P view → P (view.removeTuple key)
  left : ∀ {view groupKey group} members env, P view → view.groups.get? groupKey = some group →
    P (view.setGroup groupKey
      { members
        states := (takeOutAll ev (b.frames outer env) groupKey b.aggregates group.states).1 })
  emptied : ∀ {view} groupKey, P view → P (view.removeGroup groupKey)
  indexed : ∀ {view} key, P view → P (view.indexTuple key)
  opened : ∀ {view t groupKey}, P view → T t → b.groupKey ev outer t.env = .ok groupKey →
    P (view.setGroup groupKey ((view.groups.get? groupKey).getD b.emptyGroup))
  entered : ∀ {view t groupKey group values}, P view → T t →
    b.groupKey ev outer t.env = .ok groupKey → view.groups.get? groupKey = some group →
    ev.aggregatedAll (b.frames outer t.env) b.aggregates = .ok values →
    P (view.setGroup groupKey
      { members := group.members.add t.key
        states := List.zipWith Accumulator.add group.states values })
  added : ∀ {view t} group, P view → T t → P (view.addTuple t group)
  staged : ∀ {view key made}, P view → b.stagedRow ev outer view key = .ok made →
    P { view with staged := view.staged.set key made }
  published : ∀ {view} touched, P view →
    P { view with
        visible := (b.published touched view).1
        order := (b.published touched view).2 }
  started : ∀ {view}, P view → P (b.startFrom view)

/-- New tuples are among those that are derived. -/
theorem mem_of_newTuples {view : View} {ts : List Tuple} {t : Tuple}
    (h : t ∈ newTuples view (byKey ts)) : t ∈ ts := by
  obtain ⟨entry, hentry, rfl⟩ := List.mem_map.1 h
  have hmem := OrdMap.get?_eq_some_iff.2 (List.mem_filter.1 hentry).1
  obtain ⟨t, ht, heq⟩ := List.mem_map.1 (OrdMap.mem_of_get?_ofList hmem)
  obtain ⟨hkey, henv⟩ := Prod.mk.inj heq
  rwa [← hkey, ← henv]

section

variable {b : Blueprint} {ev : Evaluator} {outer : List Frame} {P : View → Prop} {view : View}

/-- What taking out a tuple and adding one maintain, replacing tuples maintains. -/
theorem safe_replaceTuples {F : EvalError → Prop} {new : List Tuple}
    (retract : ∀ {view} key, P view → Safe P F (b.retract ev outer key) view)
    (insert : ∀ t ∈ new, ∀ {view}, P view → Safe P F (b.insert ev outer t) view)
    (outdated : List Key) (hview : P view) :
    Safe P F (b.replaceTuples ev outer outdated new) view := by
  have hretract : ∀ {view}, P view → Safe P F (b.retractAll ev outer outdated) view := by
    induction outdated with
    | nil => exact fun hview => .pure hview _
    | cons key rest ih =>
        intro view hview
        refine (retract key hview).bind fun _ _ _ hview => ?_
        exact (ih hview).bind fun _ _ _ hview => .pure hview _
  have hinsert : ∀ {view}, P view → Safe P F (b.insertAll ev outer new) view := by
    induction new with
    | nil => exact fun hview => .pure hview _
    | cons t rest ih =>
        intro view hview
        obtain ⟨ht, hrest⟩ := List.forall_mem_cons.1 insert
        refine (ht hview).bind fun _ _ _ hview => ?_
        exact (ih hrest hview).bind fun _ _ _ hview => .pure hview _
  refine (hretract hview).bind fun _ _ _ hview => ?_
  exact (hinsert hview).bind fun _ _ _ hview => .pure hview _

/-- A property that the view to start from has is maintained by the steps of deriving all tuples. -/
theorem safe_rederive (start : P (b.startFrom view))
    (replace : ∀ ts, b.joins.enumerate ev outer none = .ok ts → ∀ {view} outdated, P view →
      Safe P (fun _ => True) (b.replaceTuples ev outer outdated (newTuples view (byKey ts))) view)
    (refresh : ∀ {view} touched, P view →
      Safe P (fun _ => True) (b.refresh ev outer touched) view) :
    Safe P (fun _ => True) (b.rederive ev outer) view := by
  refine Safe.of_eq (b.rederive_eq ev outer view) ?_
  refine (Upkeep.safe_ofExcept start fun _ _ => trivial).bind fun ts view hts hview => ?_
  obtain ⟨hts, -⟩ := Upkeep.ofExcept_eq_ok.1 hts
  refine (Safe.get hview).bind fun _ view hget hview => ?_
  cases hget
  refine (replace ts hts _ hview).bind fun touched view _ hview => ?_
  exact (Safe.get hview).bind fun view _ _ hview => refresh _ hview

theorem safe_follow (changed : List (Nat × List Key)) (hview : P view)
    (replace : ∀ changed ts, b.deriveAllChanged ev changed = .ok ts → ∀ {view} outdated, P view →
      Safe P (fun _ => True) (b.replaceTuples ev [] outdated (newTuples view (byKey ts))) view)
    (refresh : ∀ {view} touched, P view → Safe P (fun _ => True) (b.refresh ev [] touched) view) :
    Safe P (fun _ => True) (b.follow ev changed) view := by
  refine (Upkeep.safe_ofExcept hview fun _ _ => trivial).bind fun ts view hts hview => ?_
  obtain ⟨hts, -⟩ := Upkeep.ofExcept_eq_ok.1 hts
  refine (Safe.get hview).bind fun _ view hget hview => ?_
  cases hget
  exact (replace _ ts hts _ hview).bind fun touched view _ hview => refresh _ hview

end

namespace Upholds

variable {b : Blueprint} {ev : Evaluator} {outer : List Frame} {P : View → Prop}
  {T : Tuple → Prop} {view : View} (h : b.Upholds ev outer P T)

include h

theorem safe_leaveGroup (groupKey key : Key) (env : List Scalar) (hview : P view) :
    Safe P (fun _ => True) (b.leaveGroup ev outer groupKey key env) view := by
  refine (Safe.get hview).bind fun view _ hget hview => ?_
  cases hget
  cases hgroup : view.groups.get? groupKey with
  | none => exact .throw hview trivial
  | some group =>
      have hleft := h.left (OrdMap.erase group.members key) env hview hgroup
      refine (Safe.modify hleft).bind fun _ view _ hview => ?_
      refine (Upkeep.safe_ofExcept hview fun _ _ => trivial).bind fun _ view _ hview => ?_
      split
      · exact .modify (h.emptied groupKey hview)
      · exact .pure hview _

theorem safe_retract (key : Key) (hview : P view) :
    Safe P (fun _ => True) (b.retract ev outer key) view := by
  refine (Safe.get hview).bind fun view _ hget hview => ?_
  cases hget
  cases htuple : view.tuples.get? key with
  | none => exact .pure hview _
  | some bound =>
      refine (Safe.modify (h.removed key hview)).bind fun _ view _ hview => ?_
      cases hgroup : bound.group with
      | none => exact .pure hview _
      | some groupKey =>
          exact (h.safe_leaveGroup groupKey key bound.env hview).bind
            fun _ _ _ hview => .pure hview _

theorem safe_enterGroup {t : Tuple} (ht : T t) (hview : P view) :
    Safe P (fun _ => True) (b.enterGroup ev outer t) view := by
  refine (Upkeep.safe_ofExcept hview fun _ _ => trivial).bind fun groupKey _ hrun hview => ?_
  obtain ⟨hkey, rfl⟩ := Upkeep.ofExcept_eq_ok.1 hrun
  refine (Safe.get hview).bind fun view _ hget hview => ?_
  cases hget
  refine (Safe.modify (h.opened hview ht hkey)).bind fun _ opened hset hview => ?_
  cases hset
  refine (Upkeep.safe_ofExcept hview fun _ _ => trivial).bind fun values _ hrun hview => ?_
  obtain ⟨hvalues, rfl⟩ := Upkeep.ofExcept_eq_ok.1 hrun
  have hentered := h.entered hview ht hkey (OrdMap.get?_insert_self ..) hvalues
  exact (Safe.modify hentered).bind fun _ _ _ hview => .pure hview _

theorem safe_insert {t : Tuple} (ht : T t) (hview : P view) :
    Safe P (fun _ => True) (b.insert ev outer t) view := by
  refine (Safe.modify (h.indexed t.key hview)).bind fun _ view _ hview => ?_
  split
  · refine (h.safe_enterGroup ht hview).bind fun groupKey view _ hview => ?_
    exact (Safe.modify (h.added (some groupKey) hview ht)).bind fun _ _ _ hview => .pure hview _
  · exact (Safe.modify (h.added none hview ht)).bind fun _ _ _ hview => .pure hview _

theorem safe_stageAll (keys : List Key) (hview : P view) :
    Safe P (fun _ => True) (b.stageAll ev outer keys) view := by
  induction keys generalizing view with
  | nil => exact .pure hview _
  | cons key rest ih =>
      refine (Safe.get hview).bind fun view _ hget hview => ?_
      cases hget
      refine (Upkeep.safe_ofExcept hview fun _ _ => trivial).bind fun made _ hrun hview => ?_
      obtain ⟨hmade, rfl⟩ := Upkeep.ofExcept_eq_ok.1 hrun
      exact (Safe.modify (h.staged hview hmade)).bind fun _ _ _ hview => ih hview

theorem safe_refresh (touched : List Key) (hview : P view) :
    Safe P (fun _ => True) (b.refresh ev outer touched) view := by
  refine (h.safe_stageAll _ hview).bind fun _ view _ hview => ⟨?_, fun _ => trivial⟩
  obtain ⟨changes, hrun, -⟩ := b.publish_exact (OrdSet.ofList touched).keys view
  rw [hrun]
  exact h.published _ hview

/-- Deriving all tuples maintains the property if they may all be added. -/
theorem safe_rederive (htuples : ∀ ts, b.joins.enumerate ev outer none = .ok ts → ∀ t ∈ ts, T t)
    (hview : P view) : Safe P (fun _ => True) (b.rederive ev outer) view :=
  Blueprint.safe_rederive (h.started hview)
    (fun ts hts => Blueprint.safe_replaceTuples h.safe_retract
      fun t ht => h.safe_insert (htuples ts hts t (mem_of_newTuples ht)))
    h.safe_refresh

omit h in
/-- Following changes does so if the tuples that are derived from changed rows may be added. -/
theorem safe_follow (h : b.Upholds ev [] P T) (changed : List (Nat × List Key))
    (htuples : ∀ changed ts, b.deriveAllChanged ev changed = .ok ts → ∀ t ∈ ts, T t)
    (hview : P view) : Safe P (fun _ => True) (b.follow ev changed) view :=
  Blueprint.safe_follow changed hview
    (fun changed ts hts => Blueprint.safe_replaceTuples h.safe_retract
      fun t ht => h.safe_insert (htuples changed ts hts t (mem_of_newTuples ht)))
    h.safe_refresh

end Upholds

end Blueprint

end LiveQuery
