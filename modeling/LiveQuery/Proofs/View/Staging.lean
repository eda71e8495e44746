import LiveQuery.Proofs.View.DeltaJoin
import LiveQuery.Proofs.View.Groups

/-!
# The output rows of a view

There is an output row for each tuple, or for each group that `having` keeps. Upkeep makes the rows
of touched keys again and leaves the others, which are as they were made, since neither their group
nor its first tuple has changed.

A view that is started without tuples has no rows at all, not even that of the group that is there
without `group by`; the first derivation of all its tuples makes that row.

**Invariant.** `View.Exact`: each row is there as it is made now.

**Results.** `Blueprint.ends_rederive` and `Blueprint.ends_follow`: both ways of upkeep maintain the
groups of a view, also when they fail, and its output rows.
-/

namespace LiveQuery

open JoinPlan

/-- The output rows of a view are those that are made of its tuples and groups. -/
def View.Exact (b : Blueprint) (ev : Evaluator) (outer : List Frame) (view : View) : Prop :=
  ∀ key, b.stagedRow ev outer view key = .ok (view.staged.get? key)

/-- A view without tuples and without output rows. -/
structure View.Bare (view : View) : Prop where
  tuples : ∀ key, view.tuples.get? key = none
  staged : ∀ key, view.staged.get? key = none

namespace Blueprint

variable {b : Blueprint} {ev : Evaluator} {outer : List Frame} {view mid after : View}

/-! ## What a row is made of -/

theorem groupEnv_eq (view : View) (group : Group) :
    b.groupEnv view group = (group.members.first?.bind fun member => view.env? member.1).getD
      (b.joins.steps.map fun _ => .undefined) := by
  unfold groupEnv View.env?
  cases group.members.first? with
  | none => rfl
  | some member =>
      dsimp only [Option.bind_some]
      cases view.tuples.get? member.1 <;> rfl

/-- A row is made of the group of its key, or of its tuple. -/
theorem stagedRow_of_same {key : Key} (h : view.SameAt b after key) :
    b.stagedRow ev outer after key = b.stagedRow ev outer view key := by
  unfold stagedRow
  split
  next hgrouped =>
    rw [h.group hgrouped]
    cases hget : view.groups.get? key with
    | none => rfl
    | some group =>
        have henv : b.groupEnv after group = b.groupEnv view group := by
          rw [groupEnv_eq, groupEnv_eq]
          cases hfirst : group.members.first? with
          | none => rfl
          | some member =>
              have hmem : member.1 ∈ OrdMap.keys group.members :=
                List.mem_map_of_mem (List.mem_of_head? hfirst)
              exact congrArg (Option.getD · _) (h.members hgrouped group hget _ hmem)
        simp only [groupFrames, henv]
  next hsingle => rw [h.tuple (eq_false_of_ne_true hsingle)]

theorem stagedRow_of_core (htuples : after.tuples = view.tuples)
    (hgroups : after.groups = view.groups) :
    b.stagedRow ev outer after = b.stagedRow ev outer view := by
  funext key
  refine stagedRow_of_same ⟨fun _ => ?_, fun _ => ?_, fun _ _ _ k _ => ?_⟩
  · rw [htuples]
  · rw [hgroups]
  · rw [View.env?, View.env?, htuples]

/-- There is no row without a group or a tuple. -/
theorem stagedRow_of_none {key : Key} (hgroup : b.grouped = true → view.groups.get? key = none)
    (htuple : b.grouped = false → view.tuples.get? key = none) :
    b.stagedRow ev outer view key = .ok none := by
  unfold stagedRow
  split
  next hgrouped => rw [hgroup hgrouped]; rfl
  next hsingle => rw [htuple (eq_false_of_ne_true hsingle)]; rfl

/-! ## Making rows again -/

/-- The output rows of some keys were made again, and nothing else was done to the tuples, the
groups and the output rows of a view. -/
structure Restages (b : Blueprint) (ev : Evaluator) (outer : List Frame) (view : View)
    (keys : List Key) (after : View) : Prop where
  tuples : after.tuples = view.tuples
  groups : after.groups = view.groups
  made : ∀ key ∈ keys, b.stagedRow ev outer view key = .ok (after.staged.get? key)
  kept : ∀ key ∉ keys, after.staged.get? key = view.staged.get? key

theorem ends_stageAll (h : view.Grouped b ev outer) {F : EvalError → Prop}
    (fails : b.Evaluates F ev outer) (keys : List Key) :
    Ends (fun _ after => b.Restages ev outer view keys after)
      (fun error after => after.Grouped b ev outer ∧ F error) (b.stageAll ev outer keys view) := by
  induction keys generalizing view with
  | nil => exact .ok ⟨rfl, rfl, fun _ hk => absurd hk List.not_mem_nil, fun _ _ => rfl⟩
  | cons key rest ih =>
      refine Ends.get.bind fun _ view _ hsame => ?_
      obtain ⟨rfl, rfl⟩ := hsame
      have hfails := fails.staged _ h.sized key
      refine (Upkeep.ends_ofExcept fun error hmade => ⟨h, hfails error hmade⟩).bind
        fun staged _ _ hstaged => ?_
      obtain ⟨hmade, rfl⟩ := hstaged
      refine Ends.modify.bind fun _ next _ hnext => ?_
      have hgrouped : next.Grouped b ev outer := by
        rw [hnext]
        exact h.of_core rfl rfl
      refine (ih hgrouped).mono fun _ after hrest => ?_
      rw [hnext] at hrest
      refine ⟨hrest.tuples, hrest.groups, fun k hk => ?_, fun k hk => ?_⟩
      · by_cases hmem : k ∈ rest
        · rw [← hrest.made k hmem]
          exact (congrFun (stagedRow_of_core rfl rfl) k).symm
        · obtain rfl := (List.mem_cons.1 hk).resolve_right hmem
          rw [hrest.kept k hmem, hmade, OrdMap.get?_set_self]
      · obtain ⟨hne, hmem⟩ := not_or.1 (mt List.mem_cons.2 hk)
        rw [hrest.kept k hmem, OrdMap.get?_set, if_neg hne]

theorem ends_refresh (h : view.Grouped b ev outer) {F : EvalError → Prop}
    (fails : b.Evaluates F ev outer) (touched : List Key) :
    Ends (fun _ after => b.Restages ev outer view touched after)
      (fun error after => after.Grouped b ev outer ∧ F error)
      (b.refresh ev outer touched view) := by
  refine (ends_stageAll h fails _).bind fun _ staged _ hstaged => ?_
  obtain ⟨changes, hrun, -⟩ := b.publish_exact (OrdSet.ofList touched).keys staged
  rw [hrun]
  refine .ok ⟨hstaged.tuples, hstaged.groups, fun k hk => ?_, fun k hk => ?_⟩
  · exact hstaged.made k (OrdSet.mem_keys_ofList.2 hk)
  · exact hstaged.kept k (mt OrdSet.mem_keys_ofList.1 hk)

namespace Restages

variable {keys : List Key}

theorem grouped (h : b.Restages ev outer view keys after) (hview : view.Grouped b ev outer) :
    after.Grouped b ev outer :=
  hview.of_core h.tuples h.groups

theorem populated (h : b.Restages ev outer view keys after) (hview : view.Populated b) :
    after.Populated b :=
  fun groupKey group hget => hview groupKey group (h.groups ▸ hget)

/-- The rows of all other keys have to be there already. -/
theorem exact (h : b.Restages ev outer view keys after)
    (hothers : ∀ key ∉ keys, b.stagedRow ev outer view key = .ok (view.staged.get? key)) :
    after.Exact b ev outer := by
  intro key
  rw [stagedRow_of_core h.tuples h.groups]
  by_cases hkey : key ∈ keys
  · exact h.made key hkey
  · rw [hothers key hkey, h.kept key hkey]

end Restages

/-- Where nothing was touched, the rows are as they were. -/
theorem Moves.exact_at {touched : List Key} (h : b.Moves ev outer view touched mid)
    (hexact : view.Exact b ev outer) {key : Key} (hkey : key ∉ touched) :
    b.stagedRow ev outer mid key = .ok (mid.staged.get? key) := by
  rw [stagedRow_of_same (h.same key hkey), hexact key, h.staged]

/-! ## Deriving anew -/

/-- How the groups and the output rows of a view are maintained when its tuples are all derived. -/
theorem ends_rederiveFrom (before : View) (h : view.Grouped b ev outer) {F : EvalError → Prop}
    (fails : b.Evaluates F ev outer) :
    Ends (fun _ after => after.Grouped b ev outer ∧ (view.Populated b → after.Populated b) ∧
        (view.Exact b ev outer ∨ view.Bare → after.Exact b ev outer))
      (fun error after => after.Grouped b ev outer ∧ F error)
      (b.rederiveFrom ev outer before view) := by
  refine (Upkeep.ends_ofExcept fun error herror => ⟨h, fails.tuples _ error herror⟩).bind
    fun derived _ _ hsame => ?_
  obtain rfl := hsame.2
  refine Ends.get.bind fun _ view _ hsame => ?_
  obtain ⟨rfl, rfl⟩ := hsame
  refine (ends_replaceTuples h fails fun _ _ hkey => hkey).bind fun touched _ _ hmoves => ?_
  refine Ends.get.bind fun _ mid _ hsame => ?_
  obtain ⟨rfl, rfl⟩ := hsame
  refine (ends_refresh hmoves.grouped fails _).mono fun _ after hstaged => ?_
  refine ⟨hstaged.grouped hmoves.grouped, fun hpopulated =>
    hstaged.populated (hmoves.populated hpopulated), fun hstart => ?_⟩
  refine hstaged.exact fun key hkey => ?_
  simp only [List.mem_append, not_or] at hkey
  obtain ⟨⟨-, htouched⟩, hgroup⟩ := hkey
  rcases hstart with hexact | hbare
  · exact hmoves.exact_at hexact htouched
  · -- all groups are put out, as there is no row yet
    have hnone : mid.staged = OrdMap.empty :=
      OrdMap.ext_get? fun k => by rw [hmoves.staged, hbare.staged, OrdMap.get?_empty]
    rw [hnone] at hgroup ⊢
    refine stagedRow_of_none (fun _ => ?_) fun hsingle => ?_
    · exact OrdMap.not_mem_keys.1 hgroup
    · rw [(hmoves.same key htouched).tuple hsingle, hbare.tuples]

theorem ends_rederive (h : b.nested = false → view.Grouped b ev outer) {F : EvalError → Prop}
    (fails : b.Evaluates F ev outer) :
    Ends (fun _ after => after.Grouped b ev outer ∧
        ((b.nested = false → view.Populated b) → after.Populated b) ∧
        ((b.nested = false → view.Exact b ev outer ∨ view.Bare) → after.Exact b ev outer))
      (fun error after => after.Grouped b ev outer ∧ F error) (b.rederive ev outer view) := by
  rw [rederive_eq]
  unfold startFrom
  split
  next hnested =>
    have hempty : View.Grouped b ev outer
        { b.emptyView with visible := view.visible, order := view.order } :=
      (View.Grouped.emptyView b ev outer).of_core rfl rfl
    refine (ends_rederiveFrom view hempty fails).mono fun _ after hafter => ?_
    exact ⟨hafter.1, fun _ => hafter.2.1 b.populated_emptyView,
      fun _ => hafter.2.2 (.inr ⟨fun _ => rfl, fun _ => rfl⟩)⟩
  next hflat =>
    have hnested : b.nested = false := eq_false_of_ne_true hflat
    refine (ends_rederiveFrom view (h hnested) fails).mono fun _ after hafter => ?_
    exact ⟨hafter.1, fun hpopulated => hafter.2.1 (hpopulated hnested),
      fun hstart => hafter.2.2 (hstart hnested)⟩

/-- A view that is made anew has its tuples in groups, also if that fails. -/
theorem safe_rederive_empty {F : EvalError → Prop} (fails : b.Evaluates F ev outer) :
    Safe (fun view => view.Grouped b ev outer) F (b.rederive ev outer) b.emptyView :=
  ((ends_rederive (fun _ => .emptyView b ev outer) fails).mono fun _ _ hview => hview.1).safe

/-! ## Following changes -/

/-- A tuple that is derived for changed rows binds one of them where they are fixed. -/
theorem part_of_deriveChanged (inner : ∀ step ∈ b.joins.steps, step.Inner) {p : Nat}
    {keys : List Key} {ts : List Tuple} (hts : b.deriveChanged ev p keys = .ok ts) {x : Tuple}
    (hx : x ∈ ts) :
    p < b.joins.steps.length ∧ ∃ k ∈ keys, x.key.parts[p]? = some k.toScalar := by
  unfold deriveChanged at hts
  cases hp : b.joins.steps[p]? with
  | none =>
      rw [hp] at hts
      cases hts
      cases hx
  | some step =>
      rw [hp] at hts
      obtain ⟨current, -, hts⟩ := Except.bind_eq_ok.1 hts
      obtain ⟨joined, hjoined, -⟩ := Except.bind_eq_ok.1 hts
      obtain ⟨sources, hsources⟩ :=
        exists_supplied (fun step hstep => (inner step hstep).shared) hjoined
      obtain ⟨entries, hpicks, hlength, -, rfl⟩ := (mem_enumerate inner hsources hts).1 hx
      have hlt := (List.getElem?_eq_some_iff.1 hp).1
      have hentry := List.getElem?_eq_getElem (hlength ▸ hlt)
      have hfixed := (picks_iff.1 hpicks).2 p _ _ hentry
        (hsources.fixed_at hlt (Nat.zero_add p))
      exact ⟨hlt, _, (mem_rowsOf.1 hfixed).1, by rw [part_tupleOf, hentry]; rfl⟩

/-- The tuples of a view that are derived for changed rows are found in the index. -/
theorem stale_of_derived (indexed : view.Indexed b) (inner : ∀ step ∈ b.joins.steps, step.Inner)
    {changed : List (Nat × List Key)} {derived : List Tuple}
    (hderive : b.deriveAllChanged ev (changed.filter fun entry => !entry.2.isEmpty) = .ok derived)
    {key : Key} (hkey : key ∈ (byKey derived).keys) (hview : key ∈ view.tuples.keys) :
    key ∈ (OrdSet.ofList ((changed.filter fun entry => !entry.2.isEmpty).flatMap
      fun entry => staleTuples view entry.1 entry.2)).keys := by
  obtain ⟨env, henv⟩ := OrdMap.mem_keys.1 hkey
  obtain ⟨⟨p, keys⟩, hmem, ts, hts, hx⟩ :=
    ((mem_deriveAllChanged hderive).2 _).1 (mem_of_byKey henv)
  obtain ⟨hlt, k, hk, hpart⟩ := part_of_deriveChanged inner hts hx
  exact mem_staleKeys.2 ⟨p, k, mem_listedAt_nonempty.2 ⟨keys, hmem, hk⟩,
    indexed.complete key hview p hlt _ hpart⟩

/-- Where nothing was touched there is nothing yet. -/
theorem Moves.bare (h : b.Moves ev outer view [] mid) (hview : view.Grouped b ev outer)
    (hbare : view.Bare) : mid.Bare where
  tuples key := by
    have hsame := fun key => h.same key List.not_mem_nil
    by_cases hgrouped : b.grouped = true
    · cases htuple : mid.tuples.get? key with
      | none => rfl
      | some bound =>
          obtain ⟨groupKey, group, hbound, -, hget⟩ := h.grouped.placed hgrouped key bound htuple
          have hmem := (h.grouped.members groupKey group hget key).2 ⟨bound, htuple, hbound⟩
          rw [(hsame groupKey).group hgrouped] at hget
          obtain ⟨bound', htuple', -⟩ := (hview.members groupKey group hget key).1 hmem
          cases (hbare.tuples key).symm.trans htuple'
    · rw [(hsame key).tuple (eq_false_of_ne_true hgrouped), hbare.tuples]
  staged key := by rw [h.staged, hbare.staged]

/-- Where something was touched, there is nothing else. -/
theorem Moves.none_at {touched : List Key} (h : b.Moves ev outer view touched mid)
    (hview : view.Grouped b ev outer) (hpopulated : view.Populated b) (hbare : view.Bare)
    (htouched : touched ≠ []) {key : Key} (hkey : key ∉ touched) :
    b.stagedRow ev outer mid key = .ok (mid.staged.get? key) := by
  rw [h.staged, hbare.staged]
  refine stagedRow_of_none (fun hgrouped => ?_) fun hsingle => ?_
  · rw [(h.same key hkey).group hgrouped]
    cases hget : view.groups.get? key with
    | none => rfl
    | some group =>
        rcases hpopulated key group hget with ⟨hnone, rfl⟩ | hmembers
        · obtain ⟨first, hfirst⟩ := List.exists_mem_of_ne_nil _ htouched
          exact absurd (h.whole hgrouped hnone first hfirst ▸ hfirst) hkey
        · obtain ⟨member, hmember⟩ := List.exists_mem_of_ne_nil _ hmembers
          obtain ⟨bound, htuple, -⟩ := (hview.members key group hget member).1 hmember
          cases (hbare.tuples member).symm.trans htuple
  · rw [(h.same key hkey).tuple hsingle, hbare.tuples]

/-- How the groups and the output rows of a view are maintained when it follows changes. The lists
of changed keys need not be complete for that. -/
theorem ends_follow (h : view.Grouped b ev []) (indexed : view.Indexed b)
    (inner : ∀ step ∈ b.joins.steps, step.Inner) {F : EvalError → Prop}
    (fails : b.Evaluates F ev []) (changed : List (Nat × List Key)) :
    Ends (fun _ after => after.Grouped b ev [] ∧ (view.Populated b → after.Populated b) ∧
        (view.Exact b ev [] → after.Exact b ev []) ∧
        (view.Populated b → view.Bare → after.Exact b ev [] ∨ after.Bare))
      (fun error after => after.Grouped b ev [] ∧ F error) (b.follow ev changed view) := by
  have hderives := provided_deriveAllChanged fails.rows fails.tuples
    (changed.filter fun entry => !entry.2.isEmpty)
  refine (Upkeep.ends_ofExcept fun error herror => ⟨h, hderives error herror⟩).bind
    fun derived _ _ hderived => ?_
  obtain ⟨hderive, rfl⟩ := hderived
  refine Ends.get.bind fun _ view _ hsame => ?_
  obtain ⟨rfl, rfl⟩ := hsame
  refine (ends_replaceTuples h fails fun key => stale_of_derived indexed inner hderive).bind
    fun touched mid _ hmoves => ?_
  refine (ends_refresh hmoves.grouped fails _).mono fun _ after hstaged => ?_
  refine ⟨hstaged.grouped hmoves.grouped, fun hpopulated =>
    hstaged.populated (hmoves.populated hpopulated),
    fun hexact => hstaged.exact fun key => hmoves.exact_at hexact, fun hpopulated hbare => ?_⟩
  by_cases htouched : touched = []
  · subst htouched
    have hmid := hmoves.bare h hbare
    exact .inr ⟨fun key => by rw [hstaged.tuples, hmid.tuples],
      fun key => by rw [hstaged.kept key List.not_mem_nil, hmid.staged]⟩
  · exact .inl (hstaged.exact fun key => hmoves.none_at h hpopulated hbare htouched)

end Blueprint

/-! ## What the output rows of a view say -/

/-- What the expressions of a group are evaluated on outside aggregates: the values of its tuple
with the smallest key, and in a group without tuples all missing. -/
inductive View.Represents (b : Blueprint) (view : View) (members : OrdSet Key) : List Scalar → Prop
  | first {key : Key} {env : List Scalar} (mem : key ∈ OrdMap.keys members)
      (least : ∀ other ∈ OrdMap.keys members, compare key other ≠ .gt)
      (bound : view.env? key = some env) : Represents b view members env
  | missing (empty : OrdMap.keys members = []) :
      Represents b view members (b.joins.steps.map fun _ => .undefined)

/-- The frames in which a group is put out, given its states. -/
def Blueprint.framesOver (b : Blueprint) (outer : List Frame) (env : List Scalar)
    (states : List Accumulator) : List Frame :=
  { body := b.joins.body
    env
    aggregates := some ((b.aggregates.map Expr.id).zip (states.map Accumulator.value)) } :: outer

/-- There is one output row for each group whose `having` holds, of its first tuple and the values
of its aggregates; without groups there is one for each tuple. There is no other row. -/
structure View.PutsOut (b : Blueprint) (ev : Evaluator) (outer : List Frame) (view : View) :
    Prop where
  group : b.grouped = true → ∀ key group, view.groups.get? key = some group →
    ∃ env, view.Represents b group.members env ∧
      ∃ kept, ev.admits (b.framesOver outer env group.states) b.body.having = .ok kept ∧
        (kept = true → ∃ row, ev.project (b.framesOver outer env group.states) b.body = .ok row ∧
          view.staged.get? key = some row) ∧
        (kept = false → view.staged.get? key = none)
  no_group : b.grouped = true → ∀ key, view.groups.get? key = none → view.staged.get? key = none
  tuple : b.grouped = false → ∀ key env, view.env? key = some env →
    ∃ row, ev.project (b.frames outer env) b.body = .ok row ∧ view.staged.get? key = some row
  no_tuple : b.grouped = false → ∀ key, view.env? key = none → view.staged.get? key = none

section

variable {b : Blueprint} {ev : Evaluator} {outer : List Frame} {view : View}

theorem View.Grouped.represents (h : view.Grouped b ev outer) {key : Key} {group : Group}
    (hget : view.groups.get? key = some group) :
    view.Represents b group.members (b.groupEnv view group) := by
  rw [Blueprint.groupEnv_eq]
  cases hfirst : group.members.first? with
  | none =>
      refine .missing ?_
      rw [OrdMap.keys, List.head?_eq_none_iff.1 hfirst]
      rfl
  | some member =>
      obtain ⟨rest, hentries⟩ := List.head?_eq_some_iff.1 hfirst
      have hmem : member.1 ∈ OrdMap.keys group.members :=
        List.mem_map_of_mem (List.mem_of_head? hfirst)
      obtain ⟨bound, htuple, -⟩ := (h.members key group hget member.1).1 hmem
      have henv : view.env? member.1 = some bound.env := by rw [View.env?, htuple]; rfl
      rw [Option.bind_some, henv]
      refine .first hmem (fun other hother => ?_) henv
      obtain ⟨entry, hentry, rfl⟩ := List.mem_map.1 hother
      have hincreasing := group.members.increasing
      rw [Increasing, hentries, List.pairwise_cons] at hincreasing
      rw [hentries] at hentry
      rcases List.mem_cons.1 hentry with rfl | hentry
      · simp
      · rw [hincreasing.1 entry hentry]
        simp

theorem View.Exact.of_sees (h : view.Exact b ev outer) {ev' : Evaluator} {outer' : List Frame}
    (hsees : ev.SeesWithin outer ev' outer' b.joins.body b.occurring) :
    view.Exact b ev' outer' := by
  intro key
  rw [← Blueprint.stagedRow_eq hsees]
  exact h key

theorem View.Exact.putsOut (h : view.Exact b ev outer) (hgroups : view.Grouped b ev outer) :
    view.PutsOut b ev outer := by
  refine ⟨fun hgrouped key group hget => ?_, fun hgrouped key hget => ?_,
    fun hsingle key env henv => ?_, fun hsingle key henv => ?_⟩
  · refine ⟨_, hgroups.represents hget, ?_⟩
    have hrow := h key
    rw [Blueprint.stagedRow, if_pos hgrouped, hget] at hrow
    obtain ⟨kept, hkept, hrow⟩ := Except.bind_eq_ok.1 hrow
    refine ⟨kept, hkept, fun hyes => ?_, fun hno => ?_⟩
    · rw [if_pos hyes] at hrow
      obtain ⟨row, hproject, hrow⟩ := Except.bind_eq_ok.1 hrow
      exact ⟨row, hproject, (Except.pure_eq_ok.1 hrow).symm⟩
    · rw [if_neg (by simp [hno])] at hrow
      exact (Except.pure_eq_ok.1 hrow).symm
  · have hrow := h key
    rw [Blueprint.stagedRow_of_none (fun _ => hget) fun hsingle => by simp [hgrouped] at hsingle]
      at hrow
    exact (Except.ok.inj hrow).symm
  · obtain ⟨bound, htuple, rfl⟩ := Option.map_eq_some_iff.1 henv
    have hrow := h key
    rw [Blueprint.stagedRow, if_neg (by simp [hsingle]), htuple] at hrow
    obtain ⟨row, hproject, hrow⟩ := Except.bind_eq_ok.1 hrow
    exact ⟨row, hproject, (Except.pure_eq_ok.1 hrow).symm⟩
  · have hrow := h key
    rw [Blueprint.stagedRow_of_none (fun hgrouped => by simp [hsingle] at hgrouped)
      fun _ => Option.map_eq_none_iff.1 henv] at hrow
    exact (Except.ok.inj hrow).symm

end

end LiveQuery
