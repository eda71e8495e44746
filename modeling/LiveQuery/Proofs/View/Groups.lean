import LiveQuery.Proofs.Accumulator
import LiveQuery.Proofs.Failures
import LiveQuery.Proofs.View.Tuples

/-!
# The groups of a view

A view keeps its tuples in groups, by the values of the `group by` expressions, and for each group
the states of the aggregates. A state does not tell in which order its values came, and a value that
was added can be taken out again: so a tuple can leave its group, and the group has then the states
that it would have without the tuple.

**Invariant.** `View.Grouped`, maintained when tuples are taken out, which never fails, and when
tuples are added, also when that fails.

**Results.** `Blueprint.ends_replaceTuples`: the groups of a view after tuples were replaced, and
what this left alone.
-/

namespace LiveQuery

/-! ## Folding anew -/

theorem Accumulator.zipWith_add_comm (states : List Accumulator) (values values' : List Scalar) :
    List.zipWith add (List.zipWith add states values) values'
      = List.zipWith add (List.zipWith add states values') values := by
  induction states generalizing values values' with
  | nil => rfl
  | cons state rest ih =>
      cases values with
      | nil => cases values' <;> rfl
      | cons value values =>
          cases values' with
          | nil => rfl
          | cons value' values' =>
              simp only [List.zipWith_cons_cons, ih, add_right_comm state value value']

/-- The values that were added to some states are taken out again. -/
theorem takeOutAll_add {ev : Evaluator} {frames : List Frame} {exprs : List Expr}
    {values : List Scalar} (hvalues : ev.aggregatedAll frames exprs = .ok values) (group : Key)
    {states : List Accumulator} (hlength : states.length = exprs.length)
    (hsound : ∀ state ∈ states, state.Sound) :
    takeOutAll ev frames group exprs (List.zipWith Accumulator.add states values)
      = (states, .ok ()) := by
  induction exprs generalizing values states with
  | nil =>
      obtain rfl := List.eq_nil_of_length_eq_zero hlength
      rfl
  | cons e rest ih =>
      obtain ⟨value, hvalue, hvalues⟩ := Except.bind_eq_ok.1 hvalues
      obtain ⟨others, hothers, hvalues⟩ := Except.bind_eq_ok.1 hvalues
      cases hvalues
      cases states with
      | nil => cases hlength
      | cons state states =>
          obtain ⟨hstate, hstates⟩ := List.forall_mem_cons.1 hsound
          rw [List.zipWith_cons_cons, takeOutAll, hvalue]
          simp only [Accumulator.takeOut?_add hstate,
            ih hothers (Nat.succ.inj hlength) hstates]

namespace Blueprint

/-- The states of the aggregates of a group with one more tuple. -/
def fold (b : Blueprint) (ev : Evaluator) (outer : List Frame) (states : List Accumulator)
    (env : List Scalar) : Except EvalError (List Accumulator) := do
  return List.zipWith Accumulator.add states (← ev.aggregatedAll (b.frames outer env) b.aggregates)

/-- The states of the aggregates over tuples that bind given values, each folded anew from its
start. -/
def foldAll (b : Blueprint) (ev : Evaluator) (outer : List Frame) (envs : List (List Scalar)) :
    Except EvalError (List Accumulator) :=
  envs.foldlM (b.fold ev outer) b.emptyGroup.states

variable {b : Blueprint} {ev : Evaluator} {outer : List Frame}

theorem fold_eq_ok {states after : List Accumulator} {env : List Scalar} :
    b.fold ev outer states env = .ok after ↔
      ∃ values, ev.aggregatedAll (b.frames outer env) b.aggregates = .ok values ∧
        List.zipWith Accumulator.add states values = after := by
  rw [fold, Except.bind_eq_ok]
  exact exists_congr fun values => and_congr_right fun _ => Except.pure_eq_ok

theorem foldlM_perm {envs envs' : List (List Scalar)} (hperm : envs.Perm envs')
    {states after : List Accumulator} (h : envs.foldlM (b.fold ev outer) states = .ok after) :
    envs'.foldlM (b.fold ev outer) states = .ok after := by
  induction hperm generalizing states with
  | nil => exact h
  | cons env _ ih =>
      rw [List.foldlM_cons, Except.bind_eq_ok] at h ⊢
      obtain ⟨mid, hmid, h⟩ := h
      exact ⟨mid, hmid, ih h⟩
  | swap env env' rest =>
      simp only [List.foldlM_cons, Except.bind_eq_ok, fold_eq_ok] at h ⊢
      obtain ⟨_, ⟨values', hvalues', rfl⟩, _, ⟨values, hvalues, rfl⟩, h⟩ := h
      rw [Accumulator.zipWith_add_comm] at h
      exact ⟨_, ⟨values, hvalues, rfl⟩, _, ⟨values', hvalues', rfl⟩, h⟩
  | trans _ _ ih ih' => exact ih' (ih h)

/-- The order of the tuples has no part in the states. -/
theorem foldAll_perm {envs envs' : List (List Scalar)} (hperm : envs.Perm envs')
    {states : List Accumulator} (h : b.foldAll ev outer envs = .ok states) :
    b.foldAll ev outer envs' = .ok states :=
  foldlM_perm hperm h

/-- The states with a tuple are those without it and the values of the tuple. -/
theorem foldAll_cons {env : List Scalar} {envs : List (List Scalar)} {states : List Accumulator} :
    b.foldAll ev outer (env :: envs) = .ok states ↔
      ∃ left, b.foldAll ev outer envs = .ok left ∧
        ∃ values, ev.aggregatedAll (b.frames outer env) b.aggregates = .ok values ∧
          List.zipWith Accumulator.add left values = states := by
  have hlast : b.foldAll ev outer (envs ++ [env]) = .ok states ↔
      ∃ left, b.foldAll ev outer envs = .ok left ∧ b.fold ev outer left env = .ok states := by
    simp only [foldAll, List.foldlM_append, Except.bind_eq_ok, List.foldlM_cons, List.foldlM_nil,
      Except.pure_eq_ok, exists_eq_right]
  have hperm := List.perm_append_singleton env envs
  rw [show b.foldAll ev outer (env :: envs) = .ok states ↔ _ from
    ⟨foldAll_perm hperm.symm, foldAll_perm hperm⟩, hlast]
  simp only [fold_eq_ok]

/-- There is a state for each aggregate, and it holds what was added. -/
theorem sound_foldAll {envs : List (List Scalar)} {states : List Accumulator}
    (h : b.foldAll ev outer envs = .ok states) :
    states.length = b.aggregates.length ∧ ∀ state ∈ states, state.Sound := by
  induction envs generalizing states with
  | nil =>
      cases h
      refine ⟨List.length_map _, fun state hstate => ?_⟩
      obtain ⟨e, -, rfl⟩ := List.mem_map.1 hstate
      split <;> exact Accumulator.sound_start _ _
  | cons env rest ih =>
      obtain ⟨left, hleft, values, hvalues, rfl⟩ := foldAll_cons.1 h
      obtain ⟨hlength, hsound⟩ := ih hleft
      refine ⟨?_, fun state hstate => ?_⟩
      · rw [List.length_zipWith, hlength, Evaluator.length_aggregatedAll hvalues, Nat.min_self]
      · obtain ⟨i, hi, rfl⟩ := List.mem_iff_getElem.1 hstate
        rw [List.getElem_zipWith]
        exact (hsound _ (List.getElem_mem _)).add _

end Blueprint

/-! ## Groups and their tuples -/

/-- The values that the members of a group bind, in the order of their keys. -/
def View.envsOf (view : View) (members : OrdSet Key) : List (List Scalar) :=
  (OrdMap.keys members).filterMap view.env?

/-- The tuples of a view are in groups by the values of the `group by` expressions, and the states
of a group are those over its tuples. Aggregates without `group by` have their one group always; a
body without groups has none. -/
structure View.Grouped (b : Blueprint) (ev : Evaluator) (outer : List Frame) (view : View) :
    Prop where
  single : b.grouped = false → ∀ key bound, view.tuples.get? key = some bound → bound.group = none
  placed : b.grouped = true → ∀ key bound, view.tuples.get? key = some bound →
    ∃ groupKey group, bound.group = some groupKey ∧
      b.groupKey ev outer bound.env = .ok groupKey ∧ view.groups.get? groupKey = some group
  members : ∀ groupKey group, view.groups.get? groupKey = some group →
    ∀ key, key ∈ OrdMap.keys group.members ↔
      ∃ bound, view.tuples.get? key = some bound ∧ bound.group = some groupKey
  folded : ∀ groupKey group, view.groups.get? groupKey = some group →
    b.foldAll ev outer (view.envsOf group.members) = .ok group.states
  whole : b.grouped = true → b.body.groupBy = none →
    ∃ group, view.groups.get? ⟨[]⟩ = some group

/-- Each group has tuples, but for the one that is there without `group by`. -/
def View.Populated (b : Blueprint) (view : View) : Prop :=
  ∀ groupKey group, view.groups.get? groupKey = some group →
    b.body.groupBy = none ∧ groupKey = ⟨[]⟩ ∨ OrdMap.keys group.members ≠ []

/-- What is put out for a key has not changed. -/
structure View.SameAt (b : Blueprint) (view after : View) (key : Key) : Prop where
  tuple : b.grouped = false → after.tuples.get? key = view.tuples.get? key
  group : b.grouped = true → after.groups.get? key = view.groups.get? key
  members : b.grouped = true → ∀ group, view.groups.get? key = some group →
    ∀ k ∈ OrdMap.keys group.members, after.env? k = view.env? k

/-- What taking out and adding tuples has done to a view, given the keys of the output rows that
were touched. -/
structure Blueprint.Moves (b : Blueprint) (ev : Evaluator) (outer : List Frame) (view : View)
    (touched : List Key) (after : View) : Prop where
  grouped : after.Grouped b ev outer
  populated : view.Populated b → after.Populated b
  same : ∀ key ∉ touched, view.SameAt b after key
  whole : b.grouped = true → b.body.groupBy = none → ∀ key ∈ touched, key = ⟨[]⟩
  staged : after.staged = view.staged

/-- The only group without tuples that there may be from the beginning. -/
theorem Blueprint.group_of_emptyView {b : Blueprint} {groupKey : Key} {group : Group}
    (h : b.emptyView.groups.get? groupKey = some group) :
    b.body.groupBy = none ∧ groupKey = ⟨[]⟩ ∧ group = b.emptyGroup := by
  unfold emptyView at h
  dsimp only at h
  split at h
  next hwhole =>
    cases List.mem_singleton.1 (OrdMap.mem_of_get?_ofList h)
    exact ⟨Option.isNone_iff_eq_none.1 (Bool.and_eq_true_iff.1 hwhole).2, rfl, rfl⟩
  · cases h

theorem Blueprint.populated_emptyView (b : Blueprint) : b.emptyView.Populated b :=
  fun _ _ hget => .inl ⟨(group_of_emptyView hget).1, (group_of_emptyView hget).2.1⟩

namespace View

variable {b : Blueprint} {ev : Evaluator} {outer : List Frame} {view after : View}

theorem envsOf_congr {members : OrdSet Key}
    (h : ∀ k ∈ OrdMap.keys members, after.env? k = view.env? k) :
    after.envsOf members = view.envsOf members :=
  List.filterMap_congr h

theorem envsOf_perm {members members' : OrdSet Key} {key : Key} {env : List Scalar}
    (henv : view.env? key = some env)
    (hperm : (OrdMap.keys members).Perm (key :: OrdMap.keys members')) :
    (view.envsOf members).Perm (env :: view.envsOf members') := by
  have := hperm.filterMap view.env?
  rwa [List.filterMap_cons_some henv] at this

theorem env?_erase {key : Key} (h : after.tuples = view.tuples.erase key) (k : Key) :
    after.env? k = if k = key then none else view.env? k := by
  rw [env?, h, OrdMap.get?_erase_eq]
  split <;> rfl

theorem env?_insert {key : Key} {bound : BoundTuple}
    (h : after.tuples = view.tuples.insert key bound) (k : Key) :
    after.env? k = if k = key then some bound.env else view.env? k := by
  rw [env?, h, OrdMap.get?_insert_eq]
  split <;> rfl

theorem SameAt.refl (b : Blueprint) (view : View) (key : Key) : view.SameAt b view key :=
  ⟨fun _ => rfl, fun _ => rfl, fun _ _ _ _ _ => rfl⟩

theorem SameAt.trans {mid : View} {key : Key} (h : view.SameAt b mid key)
    (h' : mid.SameAt b after key) : view.SameAt b after key where
  tuple hsingle := (h'.tuple hsingle).trans (h.tuple hsingle)
  group hgrouped := (h'.group hgrouped).trans (h.group hgrouped)
  members hgrouped group hget k hk := by
    rw [h'.members hgrouped group ((h.group hgrouped).trans hget) k hk,
      h.members hgrouped group hget k hk]

namespace Grouped

theorem emptyView (b : Blueprint) (ev : Evaluator) (outer : List Frame) :
    b.emptyView.Grouped b ev outer := by
  have hgroups : ∀ groupKey group, b.emptyView.groups.get? groupKey = some group →
      group = b.emptyGroup := fun _ _ hget => (Blueprint.group_of_emptyView hget).2.2
  refine ⟨fun _ _ _ h => (by cases h), fun _ _ _ h => (by cases h),
    fun groupKey group hget key => ?_, fun groupKey group hget => ?_,
    fun hgrouped hnone => ⟨b.emptyGroup, ?_⟩⟩
  · rw [hgroups groupKey group hget]
    refine ⟨fun h => (by cases h), ?_⟩
    rintro ⟨_, ⟨⟩, _⟩
  · rw [hgroups groupKey group hget]
    rfl
  · unfold Blueprint.emptyView
    simp only [hgrouped, hnone, Option.isNone_none, Bool.and_self, if_true]
    exact OrdMap.get?_ofList_of_mem (by simp) (List.mem_singleton.2 rfl)

/-- The groups depend on nothing else in a view. -/
theorem of_core (h : view.Grouped b ev outer) (htuples : after.tuples = view.tuples)
    (hgroups : after.groups = view.groups) : after.Grouped b ev outer := by
  have henvs (members : OrdSet Key) : after.envsOf members = view.envsOf members :=
    envsOf_congr fun k _ => by rw [env?, env?, htuples]
  refine ⟨?_, ?_, ?_, ?_, ?_⟩
  · rw [htuples]
    exact h.single
  · rw [htuples, hgroups]
    exact h.placed
  · rw [htuples, hgroups]
    exact h.members
  · rw [hgroups]
    simp only [henvs]
    exact h.folded
  · rw [hgroups]
    exact h.whole

theorem sized (h : view.Grouped b ev outer) : view.Sized b :=
  fun groupKey group hget => (Blueprint.sound_foldAll (h.folded groupKey group hget)).1

theorem grouped_of_group (h : view.Grouped b ev outer) {key groupKey : Key} {bound : BoundTuple}
    (htuple : view.tuples.get? key = some bound) (hbound : bound.group = some groupKey) :
    b.grouped = true := by
  by_contra hsingle
  rw [h.single (eq_false_of_ne_true hsingle) key bound htuple] at hbound
  cases hbound

/-- A tuple remembers the key of its group. -/
theorem group_of_tuple (h : view.Grouped b ev outer) {key groupKey : Key} {bound : BoundTuple}
    (htuple : view.tuples.get? key = some bound) (hbound : bound.group = some groupKey) :
    b.groupKey ev outer bound.env = .ok groupKey ∧
      ∃ group, view.groups.get? groupKey = some group := by
  obtain ⟨groupKey', group, hbound', hkey, hgroup⟩ :=
    h.placed (h.grouped_of_group htuple hbound) key bound htuple
  obtain rfl := Option.some.inj (hbound'.symm.trans hbound)
  exact ⟨hkey, group, hgroup⟩

/-- A tuple is a member of no group but its own. -/
theorem not_mem_of_ne (h : view.Grouped b ev outer) {key groupKey other : Key} {bound : BoundTuple}
    (htuple : view.tuples.get? key = some bound) (hbound : bound.group = some groupKey)
    {group : Group} (hget : view.groups.get? other = some group) (hother : other ≠ groupKey) :
    key ∉ OrdMap.keys group.members := by
  intro hmem
  obtain ⟨bound', htuple', hbound'⟩ := (h.members other group hget key).1 hmem
  obtain rfl := Option.some.inj (htuple.symm.trans htuple')
  exact hother (Option.some.inj (hbound'.symm.trans hbound))

/-- A tuple that is not there is a member of no group. -/
theorem not_mem_of_none (h : view.Grouped b ev outer) {key groupKey : Key} {group : Group}
    (hget : view.groups.get? groupKey = some group) (hnone : view.tuples.get? key = none) :
    key ∉ OrdMap.keys group.members := by
  intro hmem
  obtain ⟨bound, htuple, -⟩ := (h.members groupKey group hget key).1 hmem
  cases hnone.symm.trans htuple

end Grouped

end View

/-! ## Taking a tuple out -/

namespace Blueprint

/-- Without `group by` there is one group only. -/
theorem groupKey_of_none {b : Blueprint} {ev : Evaluator} {outer : List Frame} {env : List Scalar}
    {groupKey : Key} (hnone : b.body.groupBy = none)
    (h : b.groupKey ev outer env = .ok groupKey) : groupKey = ⟨[]⟩ := by
  rw [Blueprint.groupKey, Body.groupExprs, hnone] at h
  cases h
  rfl

namespace Moves

variable {b : Blueprint} {ev : Evaluator} {outer : List Frame} {view mid after : View}

theorem refl (h : view.Grouped b ev outer) : b.Moves ev outer view [] view :=
  ⟨h, id, fun key _ => .refl b view key, fun _ _ _ hkey => absurd hkey List.not_mem_nil, rfl⟩

theorem trans {touched touched' : List Key} (h : b.Moves ev outer view touched mid)
    (h' : b.Moves ev outer mid touched' after) :
    b.Moves ev outer view (touched ++ touched') after where
  grouped := h'.grouped
  populated hpopulated := h'.populated (h.populated hpopulated)
  same key hkey := by
    obtain ⟨hfirst, hsecond⟩ := not_or.1 (mt List.mem_append.2 hkey)
    exact (h.same key hfirst).trans (h'.same key hsecond)
  whole hgrouped hnone := List.forall_mem_append.2
    ⟨h.whole hgrouped hnone, h'.whole hgrouped hnone⟩
  staged := h'.staged.trans h.staged

end Moves

/-- What becomes of a group without one of its members, given the states over the others. -/
def groupWithout (b : Blueprint) (group : Group) (key : Key) (left : List Accumulator) :
    Option Group :=
  if (OrdMap.erase group.members key).isEmpty && b.body.groupBy.isSome then none
  else some { members := OrdMap.erase group.members key, states := left }

variable {b : Blueprint} {ev : Evaluator} {outer : List Frame} {view after : View}

theorem groupWithout_eq_some {group next : Group} {key : Key} {left : List Accumulator}
    (h : b.groupWithout group key left = some next) :
    next = { members := OrdMap.erase group.members key, states := left } ∧
      (OrdMap.keys next.members = [] → b.body.groupBy = none) := by
  unfold groupWithout at h
  split at h
  · cases h
  next hkept =>
    cases h
    refine ⟨rfl, fun hempty => ?_⟩
    have hentries : (OrdMap.erase group.members key).entries = [] := List.map_eq_nil_iff.1 hempty
    simpa [OrdMap.isEmpty, hentries] using hkept

theorem groupWithout_eq_none {group : Group} {key : Key} {left : List Accumulator}
    (h : b.groupWithout group key left = none) :
    OrdMap.keys (OrdMap.erase group.members key) = [] ∧ b.body.groupBy ≠ none := by
  unfold groupWithout at h
  split at h
  next hgone =>
    obtain ⟨hempty, hsome⟩ := Bool.and_eq_true_iff.1 hgone
    refine ⟨?_, Option.isSome_iff_ne_none.1 hsome⟩
    rw [OrdMap.isEmpty_iff.1 hempty, OrdMap.keys_empty]
  · cases h

section

variable {key groupKey : Key} {bound : BoundTuple} {group : Group} {left : List Accumulator}

/-- A tuple leaves its group. -/
theorem grouped_leave (h : view.Grouped b ev outer) (htuple : view.tuples.get? key = some bound)
    (hbound : bound.group = some groupKey) (hgroup : view.groups.get? groupKey = some group)
    (hleft : b.foldAll ev outer (view.envsOf (OrdMap.erase group.members key)) = .ok left)
    (htuples : after.tuples = view.tuples.erase key)
    (hgroups : ∀ k, after.groups.get? k
      = if k = groupKey then b.groupWithout group key left else view.groups.get? k) :
    after.Grouped b ev outer := by
  have hstays : ∀ k bound', after.tuples.get? k = some bound' ↔
      k ≠ key ∧ view.tuples.get? k = some bound' := by
    intro k bound'
    rw [htuples, OrdMap.get?_erase_eq]
    split <;> simp [*]
  have henvs : ∀ members : OrdSet Key, key ∉ OrdMap.keys members →
      after.envsOf members = view.envsOf members := by
    intro members hnot
    refine View.envsOf_congr fun k hk => ?_
    rw [View.env?_erase htuples, if_neg (ne_of_mem_of_not_mem hk hnot)]
  have hnot : key ∉ OrdMap.keys (OrdMap.erase group.members key) :=
    fun hmem => (PartIndex.mem_keys_erase.1 hmem).2 rfl
  constructor
  case single =>
    intro hsingle k bound' hk
    exact h.single hsingle k bound' ((hstays k bound').1 hk).2
  case placed =>
    intro hgrouped k bound' hk
    obtain ⟨hne, hk⟩ := (hstays k bound').1 hk
    obtain ⟨other, group', hother, hkey, hget⟩ := h.placed hgrouped k bound' hk
    by_cases hsame : other = groupKey
    · subst hsame
      cases hnext : b.groupWithout group key left with
      | some next => exact ⟨other, next, hother, hkey, by rw [hgroups, if_pos rfl, hnext]⟩
      | none =>
          -- the group is not empty, so it is still there
          have hmember := (h.members other group hgroup k).2 ⟨bound', hk, hother⟩
          have hmem : k ∈ OrdMap.keys (OrdMap.erase group.members key) :=
            PartIndex.mem_keys_erase.2 ⟨hmember, hne⟩
          rw [(groupWithout_eq_none hnext).1] at hmem
          cases hmem
    · exact ⟨other, group', hother, hkey, by rw [hgroups, if_neg hsame, hget]⟩
  case members =>
    intro other next hnext k
    rw [hgroups] at hnext
    simp only [hstays]
    split at hnext
    next hsame =>
      subst hsame
      rw [(groupWithout_eq_some hnext).1, PartIndex.mem_keys_erase, h.members other group hgroup]
      constructor
      · rintro ⟨⟨bound', hk, hother⟩, hne⟩
        exact ⟨bound', ⟨hne, hk⟩, hother⟩
      · rintro ⟨bound', ⟨hne, hk⟩, hother⟩
        exact ⟨⟨bound', hk, hother⟩, hne⟩
    next hsame =>
      rw [h.members other next hnext]
      constructor
      · rintro ⟨bound', hk, hother⟩
        refine ⟨bound', ⟨fun heq => ?_, hk⟩, hother⟩
        subst heq
        exact h.not_mem_of_ne htuple hbound hnext hsame
          ((h.members other next hnext k).2 ⟨bound', hk, hother⟩)
      · rintro ⟨bound', ⟨-, hk⟩, hother⟩
        exact ⟨bound', hk, hother⟩
  case folded =>
    intro other next hnext
    rw [hgroups] at hnext
    split at hnext
    · rw [(groupWithout_eq_some hnext).1, henvs _ hnot, hleft]
    next hsame =>
      rw [henvs _ (h.not_mem_of_ne htuple hbound hnext hsame), h.folded other next hnext]
  case whole =>
    intro hgrouped hnone
    obtain ⟨group', hget⟩ := h.whole hgrouped hnone
    by_cases hsame : (⟨[]⟩ : Key) = groupKey
    · cases hnext : b.groupWithout group key left with
      | some next => exact ⟨next, by rw [hgroups, if_pos hsame, hnext]⟩
      | none => exact absurd hnone (groupWithout_eq_none hnext).2
    · exact ⟨group', by rw [hgroups, if_neg hsame, hget]⟩

/-- Without groups, a tuple comes or goes. -/
theorem moves_single (h : view.Grouped b ev outer) (hsingle : b.grouped = false)
    (hgroups : after.groups = view.groups) (hstaged : after.staged = view.staged)
    (htuples : ∀ k, k ≠ key → after.tuples.get? k = view.tuples.get? k)
    (hbounds : ∀ k bound, after.tuples.get? k = some bound → bound.group = none) :
    b.Moves ev outer view [key] after := by
  have hnot : b.grouped ≠ true := by simp [hsingle]
  have hmembers : ∀ groupKey group, view.groups.get? groupKey = some group →
      ∀ k, k ∉ OrdMap.keys group.members := by
    intro groupKey group hget k hk
    obtain ⟨bound, htuple, hbound⟩ := (h.members groupKey group hget k).1 hk
    cases (h.single hsingle k bound htuple).symm.trans hbound
  refine ⟨⟨fun _ => hbounds, fun hgrouped => absurd hgrouped hnot, fun groupKey group hget k => ?_,
    fun groupKey group hget => ?_, fun hgrouped => absurd hgrouped hnot⟩, ?_, fun k hk => ?_,
    fun hgrouped => absurd hgrouped hnot, hstaged⟩
  · rw [hgroups] at hget
    refine ⟨fun hk => absurd hk (hmembers groupKey group hget k), ?_⟩
    rintro ⟨bound, htuple, hbound⟩
    cases (hbounds k bound htuple).symm.trans hbound
  · rw [hgroups] at hget
    rw [View.envsOf_congr fun k hk => absurd hk (hmembers groupKey group hget k)]
    exact h.folded groupKey group hget
  · exact fun hpopulated groupKey group hget => hpopulated groupKey group (hgroups ▸ hget)
  · exact ⟨fun _ => htuples k (mt List.mem_singleton.2 hk), fun hgrouped => absurd hgrouped hnot,
      fun hgrouped => absurd hgrouped hnot⟩

/-- A tuple without a group goes. -/
theorem moves_removeTuple (h : view.Grouped b ev outer)
    (htuple : view.tuples.get? key = some bound) (hbound : bound.group = none) :
    b.Moves ev outer view [key] (view.removeTuple key) := by
  have hsingle : b.grouped = false := by
    by_contra hgrouped
    obtain ⟨groupKey, -, hsome, -⟩ := h.placed (eq_true_of_ne_false hgrouped) key bound htuple
    cases hbound.symm.trans hsome
  refine moves_single h hsingle rfl rfl (fun k hk => ?_) fun k bound' hbound' => ?_
  · rw [View.removeTuple, OrdMap.get?_erase_eq, if_neg hk]
  · rw [View.removeTuple, OrdMap.get?_erase_eq] at hbound'
    split at hbound'
    · cases hbound'
    · exact h.single hsingle k bound' hbound'

theorem moves_leave (h : view.Grouped b ev outer) (htuple : view.tuples.get? key = some bound)
    (hbound : bound.group = some groupKey) (hgroup : view.groups.get? groupKey = some group)
    (hleft : b.foldAll ev outer (view.envsOf (OrdMap.erase group.members key)) = .ok left)
    (htuples : after.tuples = view.tuples.erase key)
    (hgroups : ∀ k, after.groups.get? k
      = if k = groupKey then b.groupWithout group key left else view.groups.get? k)
    (hstaged : after.staged = view.staged) : b.Moves ev outer view [groupKey] after where
  grouped := grouped_leave h htuple hbound hgroup hleft htuples hgroups
  populated hpopulated other next hnext := by
    rw [hgroups] at hnext
    split at hnext
    next hsame =>
      by_cases hempty : OrdMap.keys next.members = []
      · have hnone := (groupWithout_eq_some hnext).2 hempty
        exact .inl ⟨hnone, hsame ▸ groupKey_of_none hnone (h.group_of_tuple htuple hbound).1⟩
      · exact .inr hempty
    · exact hpopulated other next hnext
  same other hother := by
    have hne : other ≠ groupKey := fun heq => hother (List.mem_singleton.2 heq)
    refine ⟨fun hsingle => ?_, fun _ => by rw [hgroups, if_neg hne], fun _ next hnext k hk => ?_⟩
    · cases hsingle.symm.trans (h.grouped_of_group htuple hbound)
    · rw [View.env?_erase htuples, if_neg]
      exact ne_of_mem_of_not_mem hk (h.not_mem_of_ne htuple hbound hnext hne)
  whole _ hnone other hother := by
    rw [List.mem_singleton.1 hother]
    exact groupKey_of_none hnone (h.group_of_tuple htuple hbound).1
  staged := hstaged

end

/-- The states of a group are those over the others and the values of one of its members. -/
theorem exists_left (h : view.Grouped b ev outer) {key groupKey : Key} {bound : BoundTuple}
    (htuple : view.tuples.get? key = some bound) (hbound : bound.group = some groupKey)
    {group : Group} (hgroup : view.groups.get? groupKey = some group) :
    ∃ left, b.foldAll ev outer (view.envsOf (OrdMap.erase group.members key)) = .ok left ∧
      takeOutAll ev (b.frames outer bound.env) groupKey b.aggregates group.states
        = (left, .ok ()) := by
  obtain ⟨_, hmem⟩ := OrdMap.mem_keys.1
    ((h.members groupKey group hgroup key).2 ⟨bound, htuple, hbound⟩)
  have henv : view.env? key = some bound.env := by rw [View.env?, htuple]; rfl
  have hfolded := foldAll_perm (View.envsOf_perm henv (OrdMap.keys_erase_perm hmem))
    (h.folded groupKey group hgroup)
  obtain ⟨left, hleft, values, hvalues, hstates⟩ := foldAll_cons.1 hfolded
  obtain ⟨hlength, hsound⟩ := sound_foldAll hleft
  exact ⟨left, hleft, by rw [← hstates, takeOutAll_add hvalues groupKey hlength hsound]⟩

theorem leaveGroup_eq (key : Key) {groupKey : Key} {env : List Scalar} {group : Group}
    {left : List Accumulator} (hgroup : view.groups.get? groupKey = some group)
    (htaken : takeOutAll ev (b.frames outer env) groupKey b.aggregates group.states
      = (left, .ok ())) :
    ∃ after, b.leaveGroup ev outer groupKey key env view = .ok () after ∧
      after.tuples = view.tuples ∧ after.staged = view.staged ∧
      ∀ k, after.groups.get? k
        = if k = groupKey then b.groupWithout group key left else view.groups.get? k := by
  let members := OrdMap.erase group.members key
  let kept := view.setGroup groupKey { members, states := left }
  refine ⟨if members.isEmpty && b.body.groupBy.isSome then kept.removeGroup groupKey else kept,
    ?_, ?_, ?_, fun k => ?_⟩
  · refine bind_eq_ok.2 ⟨view, view, rfl, ?_⟩
    rw [hgroup]
    dsimp only
    rw [htaken]
    refine bind_eq_ok.2 ⟨_, kept, rfl, bind_eq_ok.2 ⟨(), kept, rfl, ?_⟩⟩
    dsimp only [members]
    split <;> rfl
  · split <;> rfl
  · split <;> rfl
  · unfold groupWithout
    dsimp only [members]
    split
    · rw [View.removeGroup, OrdMap.get?_erase_eq]
      dsimp only [kept]
      rw [View.setGroup, OrdMap.get?_insert_eq]
      split <;> rfl
    · dsimp only [kept]
      rw [View.setGroup, OrdMap.get?_insert_eq]

/-- To take a tuple out never fails. -/
theorem ends_retract (h : view.Grouped b ev outer) (key : Key)
    {R : EvalError → View → Prop} :
    Ends (b.Moves ev outer view) R (b.retract ev outer key view) := by
  cases htuple : view.tuples.get? key with
  | none =>
      have hrun : b.retract ev outer key view = .ok [] view :=
        bind_eq_ok.2 ⟨view, view, rfl, by rw [htuple]; rfl⟩
      rw [hrun]
      exact .ok (.refl h)
  | some bound =>
      cases hbound : bound.group with
      | none =>
          have hrun : b.retract ev outer key view = .ok [key] (view.removeTuple key) :=
            bind_eq_ok.2 ⟨view, view, rfl, by
              rw [htuple]
              exact bind_eq_ok.2 ⟨_, _, rfl, by rw [hbound]; rfl⟩⟩
          rw [hrun]
          exact .ok (moves_removeTuple h htuple hbound)
      | some groupKey =>
          obtain ⟨-, group, hgroup⟩ := h.group_of_tuple htuple hbound
          obtain ⟨left, hleft, htaken⟩ := exists_left h htuple hbound hgroup
          have hremoved : (view.removeTuple key).groups.get? groupKey = some group := hgroup
          obtain ⟨after, hleave, htuples, hstaged, hgroups⟩ := leaveGroup_eq key hremoved htaken
          have hrun : b.retract ev outer key view = .ok [groupKey] after :=
            bind_eq_ok.2 ⟨view, view, rfl, by
              rw [htuple]
              exact bind_eq_ok.2 ⟨_, _, rfl, by
                rw [hbound]
                exact bind_eq_ok.2 ⟨_, after, hleave, rfl⟩⟩⟩
          rw [hrun]
          exact .ok (moves_leave h htuple hbound hgroup hleft htuples hgroups hstaged)

theorem ends_retractAll (h : view.Grouped b ev outer) (keys : List Key)
    {R : EvalError → View → Prop} :
    Ends (b.Moves ev outer view) R (b.retractAll ev outer keys view) := by
  induction keys generalizing view with
  | nil => exact .ok (.refl h)
  | cons key rest ih =>
      refine (ends_retract h key).bind fun touched mid _ hfirst => ?_
      refine (ih hfirst.grouped).bind fun others after _ hrest => ?_
      exact .ok (hfirst.trans hrest)

/-! ## Adding a tuple -/

section

variable {t : Tuple} {groupKey : Key} {group : Group} {values : List Scalar}

/-- A group is there before its first tuple. -/
theorem grouped_open (h : view.Grouped b ev outer)
    (hnone : view.groups.get? groupKey = none) (htuples : after.tuples = view.tuples)
    (hgroups : ∀ k, after.groups.get? k
      = if k = groupKey then some b.emptyGroup else view.groups.get? k) :
    after.Grouped b ev outer := by
  have henvs (members : OrdSet Key) : after.envsOf members = view.envsOf members :=
    View.envsOf_congr fun k _ => by rw [View.env?, View.env?, htuples]
  have hother : ∀ {k other}, view.groups.get? k = some other →
      after.groups.get? k = some other := by
    intro k other hget
    rw [hgroups, if_neg, hget]
    rintro rfl
    cases hnone.symm.trans hget
  constructor
  case single =>
    rw [htuples]
    exact h.single
  case placed =>
    intro hgrouped key bound htuple
    rw [htuples] at htuple
    obtain ⟨k, other, hbound, hkey, hget⟩ := h.placed hgrouped key bound htuple
    exact ⟨k, other, hbound, hkey, hother hget⟩
  case members =>
    intro k next hnext key
    rw [hgroups] at hnext
    rw [htuples]
    split at hnext
    next hsame =>
      cases hnext
      refine ⟨fun hmem => (by cases hmem), ?_⟩
      rintro ⟨bound, htuple, hbound⟩
      obtain ⟨-, other, hget⟩ := h.group_of_tuple htuple hbound
      rw [hsame] at hget
      cases hnone.symm.trans hget
    · exact h.members k next hnext key
  case folded =>
    intro k next hnext
    rw [hgroups] at hnext
    rw [henvs]
    split at hnext
    · cases hnext
      rfl
    · exact h.folded k next hnext
  case whole =>
    intro hgrouped hwhole
    obtain ⟨other, hget⟩ := h.whole hgrouped hwhole
    exact ⟨other, hother hget⟩

/-- A tuple joins its group. -/
theorem grouped_enter (h : view.Grouped b ev outer) (hgrouped : b.grouped = true)
    (hkey : b.groupKey ev outer t.env = .ok groupKey)
    (hvalues : ev.aggregatedAll (b.frames outer t.env) b.aggregates = .ok values)
    (hgroup : view.groups.get? groupKey = some group) (habsent : view.tuples.get? t.key = none)
    (htuples : after.tuples = view.tuples.insert t.key { env := t.env, group := some groupKey })
    (hgroups : ∀ k, after.groups.get? k
      = if k = groupKey then
          some { members := group.members.add t.key
                 states := List.zipWith Accumulator.add group.states values }
        else view.groups.get? k) : after.Grouped b ev outer := by
  have hnot : t.key ∉ OrdMap.keys group.members := h.not_mem_of_none hgroup habsent
  have henvs : ∀ members : OrdSet Key, t.key ∉ OrdMap.keys members →
      after.envsOf members = view.envsOf members := by
    intro members hnot
    refine View.envsOf_congr fun k hk => ?_
    rw [View.env?_insert htuples, if_neg (ne_of_mem_of_not_mem hk hnot)]
  have hget : ∀ k, after.tuples.get? k
      = if k = t.key then some { env := t.env, group := some groupKey }
        else view.tuples.get? k := by
    intro k
    rw [htuples, OrdMap.get?_insert_eq]
  constructor
  case single =>
    intro hsingle
    cases hsingle.symm.trans hgrouped
  case placed =>
    intro _ k bound hk
    rw [hget] at hk
    split at hk
    · cases hk
      exact ⟨groupKey, _, rfl, hkey, by rw [hgroups, if_pos rfl]⟩
    · obtain ⟨other, next, hbound, hkey', hnext⟩ := h.placed hgrouped k bound hk
      by_cases hsame : other = groupKey
      · exact ⟨other, _, hbound, hkey', by rw [hgroups, if_pos hsame]⟩
      · exact ⟨other, next, hbound, hkey', by rw [hgroups, if_neg hsame, hnext]⟩
  case members =>
    intro other next hnext k
    rw [hgroups] at hnext
    rw [hget]
    split at hnext
    next hsame =>
      cases hnext
      rw [OrdSet.mem_keys_add, h.members groupKey group hgroup, hsame]
      by_cases hk : k = t.key
      · simp [hk]
      · simp [hk]
    next hsame =>
      rw [h.members other next hnext]
      by_cases hk : k = t.key
      · subst hk
        simp [habsent, Ne.symm hsame]
      · simp [hk]
  case folded =>
    intro other next hnext
    rw [hgroups] at hnext
    split at hnext
    · cases hnext
      have hfolded := foldAll_cons.2 ⟨_, h.folded groupKey group hgroup, values, hvalues, rfl⟩
      refine foldAll_perm ?_ hfolded
      rw [← henvs group.members hnot]
      refine (View.envsOf_perm ?_ (OrdMap.keys_insert_perm (OrdMap.not_mem_keys.1 hnot) ())).symm
      rw [View.env?_insert htuples, if_pos rfl]
    next hsame =>
      rw [henvs _ (h.not_mem_of_none hnext habsent), h.folded other next hnext]
  case whole =>
    intro _ hnone
    obtain ⟨next, hnext⟩ := h.whole hgrouped hnone
    by_cases hsame : (⟨[]⟩ : Key) = groupKey
    · exact ⟨_, by rw [hgroups, if_pos hsame]⟩
    · exact ⟨next, by rw [hgroups, if_neg hsame, hnext]⟩

/-- The group that a tuple joins is there, or it is opened. -/
theorem grouped_setGroup (h : view.Grouped b ev outer) (groupKey : Key) :
    (view.setGroup groupKey
      ((view.groups.get? groupKey).getD b.emptyGroup)).Grouped b ev outer := by
  cases hget : view.groups.get? groupKey with
  | some group =>
      refine h.of_core rfl (OrdMap.ext_get? fun k => ?_)
      rw [View.setGroup, OrdMap.get?_insert_eq]
      split
      next hk => rw [hk, hget]; rfl
      · rfl
  | none =>
      refine grouped_open h hget rfl fun k => ?_
      rw [View.setGroup, OrdMap.get?_insert_eq]
      rfl

theorem moves_enter (h : view.Grouped b ev outer) (hgrouped : b.grouped = true)
    (hkey : b.groupKey ev outer t.env = .ok groupKey)
    (hvalues : ev.aggregatedAll (b.frames outer t.env) b.aggregates = .ok values)
    (habsent : view.tuples.get? t.key = none) (hstaged : after.staged = view.staged)
    (htuples : after.tuples = view.tuples.insert t.key { env := t.env, group := some groupKey })
    (hgroups : ∀ k, after.groups.get? k
      = if k = groupKey then
          some { members := ((view.groups.get? groupKey).getD b.emptyGroup).members.add t.key
                 states := List.zipWith Accumulator.add
                   ((view.groups.get? groupKey).getD b.emptyGroup).states values }
        else view.groups.get? k) : b.Moves ev outer view [groupKey] after where
  grouped := by
    refine grouped_enter (grouped_setGroup h groupKey) hgrouped hkey hvalues
      (OrdMap.get?_insert_self _ _ _) habsent htuples fun k => ?_
    rw [hgroups, View.setGroup, OrdMap.get?_insert_eq]
    split <;> rfl
  populated hpopulated k next hnext := by
    rw [hgroups] at hnext
    split at hnext
    · cases hnext
      exact .inr (List.ne_nil_of_mem (OrdSet.mem_keys_add.2 (.inl rfl)))
    · exact hpopulated k next hnext
  same k hk := by
    have hne : k ≠ groupKey := fun heq => hk (List.mem_singleton.2 heq)
    refine ⟨fun hsingle => ?_, fun _ => by rw [hgroups, if_neg hne],
      fun _ next hnext member hmem => ?_⟩
    · cases hsingle.symm.trans hgrouped
    · rw [View.env?_insert htuples, if_neg]
      exact ne_of_mem_of_not_mem hmem (h.not_mem_of_none hnext habsent)
  whole _ hnone k hk := by
    rw [List.mem_singleton.1 hk]
    exact groupKey_of_none hnone hkey
  staged := hstaged

end

theorem ends_enterGroup (h : view.Grouped b ev outer) {F : EvalError → Prop}
    (fails : b.Evaluates F ev outer) (t : Tuple) :
    Ends (fun groupKey after => ∃ values, b.groupKey ev outer t.env = .ok groupKey ∧
        ev.aggregatedAll (b.frames outer t.env) b.aggregates = .ok values ∧
        after = (view.setGroup groupKey ((view.groups.get? groupKey).getD b.emptyGroup)).setGroup
          groupKey
          { members := ((view.groups.get? groupKey).getD b.emptyGroup).members.add t.key
            states := List.zipWith Accumulator.add
              ((view.groups.get? groupKey).getD b.emptyGroup).states values })
      (fun error after => after.Grouped b ev outer ∧ F error) (b.enterGroup ev outer t view) := by
  unfold enterGroup
  cases hkey : b.groupKey ev outer t.env with
  | error error => exact .error ⟨h, fails.groups _ error hkey⟩
  | ok groupKey =>
      cases hvalues : ev.aggregatedAll (b.frames outer t.env) b.aggregates with
      | error error => exact .error ⟨grouped_setGroup h groupKey, fails.folded _ error hvalues⟩
      | ok values => exact .ok ⟨values, rfl, rfl, rfl⟩

theorem ends_insert (h : view.Grouped b ev outer) {F : EvalError → Prop}
    (fails : b.Evaluates F ev outer) {t : Tuple} (habsent : view.tuples.get? t.key = none) :
    Ends (fun touched after => b.Moves ev outer view [touched] after)
      (fun error after => after.Grouped b ev outer ∧ F error) (b.insert ev outer t view) := by
  have hindexed : (view.indexTuple t.key).Grouped b ev outer := h.of_core rfl rfl
  refine Ends.modify.bind fun _ indexed _ hsame => ?_
  subst hsame
  split
  next hgrouped =>
    refine (ends_enterGroup hindexed fails t).bind fun groupKey entered _ hentered => ?_
    obtain ⟨values, hkey, hvalues, rfl⟩ := hentered
    refine .ok (moves_enter h hgrouped hkey hvalues habsent rfl rfl fun k => ?_)
    dsimp only [View.addTuple, View.setGroup, View.indexTuple]
    rw [OrdMap.get?_insert_eq, OrdMap.get?_insert_eq]
    split <;> rfl
  next hnot =>
    have hsingle : b.grouped = false := eq_false_of_ne_true hnot
    refine .ok (moves_single h hsingle rfl rfl (fun k hk => ?_) fun k bound hbound => ?_)
    · dsimp only [View.addTuple, View.indexTuple]
      rw [OrdMap.get?_insert_eq, if_neg hk]
    · dsimp only [View.addTuple, View.indexTuple] at hbound
      rw [OrdMap.get?_insert_eq] at hbound
      split at hbound
      · cases hbound
        rfl
      · exact h.single hsingle k bound hbound

theorem ends_insertAll (h : view.Grouped b ev outer) {F : EvalError → Prop}
    (fails : b.Evaluates F ev outer) {tuples : List Tuple}
    (hnodup : (tuples.map Tuple.key).Nodup)
    (habsent : ∀ t ∈ tuples, view.tuples.get? t.key = none) :
    Ends (b.Moves ev outer view) (fun error after => after.Grouped b ev outer ∧ F error)
      (b.insertAll ev outer tuples view) := by
  induction tuples generalizing view with
  | nil => exact .ok (.refl h)
  | cons t rest ih =>
      obtain ⟨hnew, hrest⟩ := List.nodup_cons.1 hnodup
      obtain ⟨hfirst, hothers⟩ := List.forall_mem_cons.1 habsent
      refine (ends_insert h fails hfirst).bind fun touched mid hrun hmoves => ?_
      obtain ⟨group, htuples⟩ := tuples_insert hrun
      refine (ih hmoves.grouped hrest fun t' ht' => ?_).bind fun others after _ hmoves' => ?_
      · rw [htuples, OrdMap.get?_insert_eq, if_neg, hothers t' ht']
        exact ne_of_mem_of_not_mem (List.mem_map_of_mem ht') hnew
      · exact .ok (hmoves.trans hmoves')

/-- The tuples of a view are replaced by those that are derived, among some keys that tell which
derived tuples the view has already. -/
theorem ends_replaceTuples (h : view.Grouped b ev outer) {F : EvalError → Prop}
    (fails : b.Evaluates F ev outer) {derived : OrdMap Key (List Scalar)} {keys : List Key}
    (hkeys : ∀ key ∈ derived.keys, key ∈ view.tuples.keys → key ∈ keys) :
    Ends (b.Moves ev outer view) (fun error after => after.Grouped b ev outer ∧ F error)
      (b.replaceTuples ev outer (outdated view derived keys) (newTuples view derived) view) := by
  refine (ends_retractAll h _).bind fun left mid hretracted hleft => ?_
  have hall : ∀ t ∈ newTuples view derived, mid.tuples.get? t.key = none := by
    intro t ht
    obtain ⟨hderived, hnew⟩ := mem_newTuples.1 ht
    have hnone : mid.env? t.key = none := by
      rw [env?_retractAll hretracted]
      split
      · rfl
      next hkept =>
        cases hbound : view.tuples.get? t.key with
        | none => rw [View.env?, hbound]; rfl
        | some bound =>
            refine absurd (mem_outdated.2 ⟨hkeys t.key (OrdMap.mem_keys.2 ⟨_, hderived⟩)
              (OrdMap.mem_keys.2 ⟨bound, hbound⟩), ?_⟩) hkept
            rw [hderived]
            exact Ne.symm hnew
    exact Option.map_eq_none_iff.1 hnone
  refine (ends_insertAll hleft.grouped fails (nodup_newTuples view derived) hall).bind
    fun entered after _ hentered => ?_
  exact .ok (hleft.trans hentered)

/-! ## What the groups of a view say -/

theorem foldAll_eq {ev' : Evaluator} {outer' : List Frame}
    (h : ev.SeesWithin outer ev' outer' b.joins.body b.occurring) :
    b.foldAll ev outer = b.foldAll ev' outer' := by
  have hfold : b.fold ev outer = b.fold ev' outer' := by
    funext states env
    rw [fold, fold, aggregatedAll_eq h]
  funext envs
  rw [foldAll, foldAll, hfold]

end Blueprint

/-- The tuples of a view are parted by the values of the `group by` expressions: each has its group,
and a group has just the tuples with its values. Only the group that is there without `group by` may
be empty, and it is always there. The states of a group are folded from its tuples. -/
structure View.Parted (b : Blueprint) (ev : Evaluator) (outer : List Frame) (view : View) :
    Prop where
  placed : ∀ key env, view.env? key = some env → ∃ groupKey group,
    b.groupKey ev outer env = .ok groupKey ∧ view.groups.get? groupKey = some group
  members : ∀ groupKey group, view.groups.get? groupKey = some group →
    ∀ key, key ∈ OrdMap.keys group.members ↔
      ∃ env, view.env? key = some env ∧ b.groupKey ev outer env = .ok groupKey
  populated : ∀ groupKey group, view.groups.get? groupKey = some group →
    b.body.groupBy = none ∧ groupKey = ⟨[]⟩ ∨ OrdMap.keys group.members ≠ []
  whole : b.body.groupBy = none → ∃ group, view.groups.get? ⟨[]⟩ = some group
  folded : ∀ groupKey group, view.groups.get? groupKey = some group →
    b.foldAll ev outer (view.envsOf group.members) = .ok group.states

namespace View.Grouped

variable {b : Blueprint} {ev : Evaluator} {outer : List Frame} {view : View}

/-- The groups are the same for evaluators that see the same. -/
theorem of_sees (h : view.Grouped b ev outer) {ev' : Evaluator} {outer' : List Frame}
    (hsees : ev.SeesWithin outer ev' outer' b.joins.body b.occurring) :
    view.Grouped b ev' outer' := by
  refine ⟨h.single, ?_, h.members, ?_, h.whole⟩
  · rw [← Blueprint.groupKey_eq hsees]
    exact h.placed
  · rw [← Blueprint.foldAll_eq hsees]
    exact h.folded

theorem parted (h : view.Grouped b ev outer) (hpopulated : view.Populated b)
    (hgrouped : b.grouped = true) : view.Parted b ev outer := by
  refine ⟨fun key env henv => ?_, fun groupKey group hget key => ?_, hpopulated,
    h.whole hgrouped, h.folded⟩
  · obtain ⟨bound, htuple, rfl⟩ := Option.map_eq_some_iff.1 henv
    obtain ⟨groupKey, group, -, hkey, hget⟩ := h.placed hgrouped key bound htuple
    exact ⟨groupKey, group, hkey, hget⟩
  · rw [h.members groupKey group hget]
    constructor
    · rintro ⟨bound, htuple, hbound⟩
      exact ⟨bound.env, by rw [env?, htuple]; rfl, (h.group_of_tuple htuple hbound).1⟩
    · rintro ⟨env, henv, hkey⟩
      obtain ⟨bound, htuple, rfl⟩ := Option.map_eq_some_iff.1 henv
      obtain ⟨groupKey', group', hbound, hkey', -⟩ := h.placed hgrouped key bound htuple
      obtain rfl := Except.ok.inj (hkey'.symm.trans hkey)
      exact ⟨bound, htuple, hbound⟩

end View.Grouped

end LiveQuery
