import LiveQuery.Proofs.View.Current
import LiveQuery.Proofs.View.Keys

/-!
# The index of a view

As long as upkeep succeeds, the index of a view lists its tuples under their parts and nothing else,
and has no part without a tuple: each operation changes the tuples and the index together. Only when
evaluation fails on the way, a tuple that is noted already stays in the index without being there.

**Invariants.** `View.Filed`, of the tuples and the index; `View.Placed`, of the tuples and the
groups that are recorded with them.

**Results.** `Blueprint.index_exact`.
-/

namespace LiveQuery

namespace PartIndex

/-- Each part is listed with a tuple. -/
def Full (parts : List PartIndex) : Prop :=
  ∀ index ∈ parts, ∀ part keys, index.get? part = some keys → ∃ key, key ∈ OrdMap.keys keys

theorem full_addTuple {parts : List PartIndex} (h : Full parts) (key : Key) (own : List Scalar) :
    Full (addTuple key own parts) := by
  induction own generalizing parts with
  | nil => exact h
  | cons first rest ih =>
      cases parts with
      | nil => exact h
      | cons index others =>
          obtain ⟨hindex, hothers⟩ := List.forall_mem_cons.1 h
          refine List.forall_mem_cons.2 ⟨fun part keys hkeys => ?_, ih hothers⟩
          rw [OrdMap.get?_insert_eq] at hkeys
          split at hkeys
          · cases hkeys
            exact ⟨key, OrdSet.mem_keys_add.2 (.inl rfl)⟩
          · exact hindex part keys hkeys

theorem full_removePart {index : PartIndex}
    (h : ∀ part keys, index.get? part = some keys → ∃ key, key ∈ OrdMap.keys keys) (key : Key)
    (own : Scalar) :
    ∀ part keys, (removePart key own index).get? part = some keys →
      ∃ key, key ∈ OrdMap.keys keys := by
  intro part keys hkeys
  unfold removePart at hkeys
  split at hkeys
  · exact h part keys hkeys
  next listed _ =>
    dsimp only at hkeys
    split at hkeys
    · rw [OrdMap.get?_erase_eq] at hkeys
      split at hkeys
      · cases hkeys
      · exact h part keys hkeys
    next hleft =>
      rw [OrdMap.get?_insert_eq] at hkeys
      split at hkeys
      · cases hkeys
        by_contra hnone
        have hkeys : OrdMap.keys (OrdMap.erase listed key) = [] :=
          List.eq_nil_iff_forall_not_mem.2 fun key hkey => hnone ⟨key, hkey⟩
        exact hleft (List.isEmpty_iff.2 (List.map_eq_nil_iff.1 hkeys))
      · exact h part keys hkeys

theorem full_removeTuple {parts : List PartIndex} (h : Full parts) (key : Key)
    (own : List Scalar) : Full (removeTuple key own parts) := by
  induction own generalizing parts with
  | nil => exact h
  | cons first rest ih =>
      cases parts with
      | nil => exact h
      | cons index others =>
          obtain ⟨hindex, hothers⟩ := List.forall_mem_cons.1 h
          exact List.forall_mem_cons.2 ⟨full_removePart hindex key first, ih hothers⟩

end PartIndex

/-- The index lists the tuples of a view under their parts, and nothing else. -/
structure View.Filed (b : Blueprint) (view : View) : Prop where
  length : view.parts.length = b.joins.steps.length
  listed : ∀ position part key, PartIndex.Lists view.parts position part key ↔
    key ∈ view.tuples.keys ∧ key.parts[position]? = some part ∧ position < b.joins.steps.length
  full : PartIndex.Full view.parts

/-- The groups of a view have the tuples that they are recorded with. -/
def View.Placed (b : Blueprint) (view : View) : Prop :=
  ∀ key bound, view.tuples.get? key = some bound →
    if b.grouped then ∃ groupKey group, bound.group = some groupKey ∧
      view.groups.get? groupKey = some group ∧ key ∈ OrdMap.keys group.members
    else bound.group = none

/-- The index and the recorded groups of a view are those of its tuples. -/
structure View.Tidy (b : Blueprint) (view : View) : Prop where
  filed : view.Filed b
  placed : view.Placed b

namespace View.Filed

variable {b : Blueprint} {view view' : View}

theorem of_bindings (h : view.Filed b) (hsame : view'.bindings = view.bindings) :
    view'.Filed b := by
  obtain ⟨htuples, hparts⟩ := Prod.mk.inj hsame
  constructor
  · rw [hparts]
    exact h.length
  · rw [htuples, hparts]
    exact h.listed
  · rw [hparts]
    exact h.full

theorem emptyView (b : Blueprint) : b.emptyView.Filed b where
  length := List.length_map _
  listed position part key := by
    refine iff_of_false (fun hlists => ?_) (fun hkey => by cases hkey.1)
    obtain ⟨keys, hkeys, -⟩ := hlists
    rw [Blueprint.emptyView, List.getD_eq_getElem?_getD, List.getElem?_map] at hkeys
    cases hstep : b.joins.steps[position]? <;> rw [hstep] at hkeys <;> cases hkeys
  full index hindex part keys hkeys := by
    obtain ⟨_, -, rfl⟩ := List.mem_map.1 hindex
    cases hkeys

theorem removeTuple (h : view.Filed b) (key : Key) : (view.removeTuple key).Filed b where
  length := (PartIndex.length_removeTuple ..).trans h.length
  listed position part k := by
    have hkeys : k ∈ (view.removeTuple key).tuples.keys ↔ k ∈ view.tuples.keys ∧ k ≠ key := by
      rw [View.removeTuple, OrdMap.mem_keys, OrdMap.mem_keys, OrdMap.get?_erase_eq]
      by_cases hk : k = key <;> simp [hk]
    rw [hkeys]
    refine PartIndex.lists_removeTuple.trans ?_
    rw [h.listed]
    constructor
    · rintro ⟨⟨hmem, hpart, hlt⟩, hother⟩
      exact ⟨⟨hmem, fun heq => hother ⟨heq, heq ▸ hpart⟩⟩, hpart, hlt⟩
    · rintro ⟨⟨hmem, hne⟩, hpart, hlt⟩
      exact ⟨⟨hmem, hpart, hlt⟩, fun hother => hne hother.1⟩
  full := PartIndex.full_removeTuple h.full key key.parts

theorem addTuple (h : view.Filed b) (t : Tuple) (group : Option Key) :
    ((view.indexTuple t.key).addTuple t group).Filed b where
  length := (PartIndex.length_addTuple ..).trans h.length
  listed position part k := by
    have hkeys : k ∈ ((view.indexTuple t.key).addTuple t group).tuples.keys ↔
        k = t.key ∨ k ∈ view.tuples.keys := OrdMap.mem_keys_insert
    rw [hkeys]
    refine PartIndex.lists_addTuple.trans ?_
    rw [h.listed, h.length]
    constructor
    · rintro (⟨hmem, hpart, hlt⟩ | ⟨rfl, hpart, hlt⟩)
      · exact ⟨.inr hmem, hpart, hlt⟩
      · exact ⟨.inl rfl, hpart, hlt⟩
    · rintro ⟨rfl | hmem, hpart, hlt⟩
      · exact .inr ⟨rfl, hpart, hlt⟩
      · exact .inl ⟨hmem, hpart, hlt⟩
  full := PartIndex.full_addTuple h.full t.key t.key.parts

end View.Filed

namespace View.Placed

variable {b : Blueprint} {view view' : View}

/-- Groups that have gained tuples still have those they are recorded with. -/
theorem of_groups (h : view.Placed b) (htuples : view'.tuples = view.tuples)
    (hgroups : ∀ groupKey group, view.groups.get? groupKey = some group →
      ∃ group', view'.groups.get? groupKey = some group' ∧
        ∀ key ∈ view.tuples.keys, key ∈ OrdMap.keys group.members →
          key ∈ OrdMap.keys group'.members) : view'.Placed b := by
  intro key bound hbound
  rw [htuples] at hbound
  have hkey := h key bound hbound
  split
  next hgrouped =>
    rw [if_pos hgrouped] at hkey
    obtain ⟨groupKey, group, hrecorded, hgroup, hmember⟩ := hkey
    obtain ⟨group', hgroup', hmembers⟩ := hgroups groupKey group hgroup
    exact ⟨groupKey, group', hrecorded, hgroup',
      hmembers key (OrdMap.mem_keys.2 ⟨bound, hbound⟩) hmember⟩
  next hsingle => rwa [if_neg hsingle] at hkey

theorem emptyView (b : Blueprint) : b.emptyView.Placed b :=
  fun _ _ h => by cases h

theorem removeTuple (h : view.Placed b) (key : Key) : (view.removeTuple key).Placed b := by
  intro k bound hbound
  change (view.tuples.erase key).get? k = some bound at hbound
  rw [OrdMap.get?_erase_eq] at hbound
  split at hbound
  · cases hbound
  · exact h k bound hbound

/-- A group is set with all the tuples of the view that it had. -/
theorem setGroup (h : view.Placed b) {groupKey : Key} {group : Group}
    (hmembers : ∀ before, view.groups.get? groupKey = some before → ∀ key ∈ view.tuples.keys,
      key ∈ OrdMap.keys before.members → key ∈ OrdMap.keys group.members) :
    (view.setGroup groupKey group).Placed b := by
  refine h.of_groups rfl fun other before hbefore => ?_
  change ∃ group', (view.groups.insert groupKey group).get? other = some group' ∧ _
  rw [OrdMap.get?_insert_eq]
  split
  next heq =>
    subst heq
    exact ⟨group, rfl, hmembers before hbefore⟩
  · exact ⟨before, hbefore, fun _ _ hkey => hkey⟩

/-- A group without tuples is taken out. -/
theorem removeGroup (h : view.Placed b) {groupKey : Key} {group : Group}
    (hgroup : view.groups.get? groupKey = some group) (hempty : group.members.isEmpty = true) :
    (view.removeGroup groupKey).Placed b := by
  intro key bound hbound
  have hkey := h key bound hbound
  split
  next hgrouped =>
    rw [if_pos hgrouped] at hkey
    obtain ⟨other, found, hrecorded, hfound, hmember⟩ := hkey
    refine ⟨other, found, hrecorded, ?_, hmember⟩
    change (view.groups.erase groupKey).get? other = some found
    rw [OrdMap.get?_erase_eq, if_neg, hfound]
    rintro rfl
    obtain rfl := Option.some.inj (hgroup.symm.trans hfound)
    rw [OrdMap.isEmpty_iff.1 hempty, OrdMap.keys_empty] at hmember
    cases hmember
  next hsingle => rwa [if_neg hsingle] at hkey

/-- A tuple is added with a group that has it. -/
theorem addTuple (h : view.Placed b) (t : Tuple) (group : Option Key)
    (hgroup : if b.grouped then ∃ groupKey g, group = some groupKey ∧
        view.groups.get? groupKey = some g ∧ t.key ∈ OrdMap.keys g.members
      else group = none) : (view.addTuple t group).Placed b := by
  intro key bound hbound
  change (view.tuples.insert t.key { env := t.env, group }).get? key = some bound at hbound
  rw [OrdMap.get?_insert_eq] at hbound
  split at hbound
  next heq =>
    cases hbound
    exact heq ▸ hgroup
  · exact h key bound hbound

end View.Placed

namespace Blueprint

variable {b : Blueprint} {ev : Evaluator} {outer : List Frame} {view after : View}

/-! ## What successful upkeep maintains -/

theorem filed_retract {key : Key} {touched : List Key} (h : view.Filed b)
    (hrun : b.retract ev outer key view = .ok touched after) : after.Filed b := by
  have hbindings := bindings_retract hrun
  split at hbindings
  · exact (h.removeTuple key).of_bindings hbindings
  · exact h.of_bindings hbindings

theorem filed_insert {t : Tuple} {touched : Key} (h : view.Filed b)
    (hrun : b.insert ev outer t view = .ok touched after) : after.Filed b := by
  obtain ⟨group, hbindings⟩ := bindings_insert hrun
  exact (h.addTuple t group).of_bindings hbindings

/-- A tuple that the view does not have leaves a group. -/
theorem placed_leaveGroup {groupKey key : Key} {env : List Scalar} (h : view.Placed b)
    (hkey : key ∉ view.tuples.keys) :
    Ends (fun _ after => after.Placed b) (fun _ _ => True)
      (b.leaveGroup ev outer groupKey key env view) := by
  refine Ends.get.bind fun _ view _ hsame => ?_
  obtain ⟨rfl, rfl⟩ := hsame
  cases hgroup : view.groups.get? groupKey with
  | none => exact .error trivial
  | some group =>
      have hset (states : List Accumulator) :
          (view.setGroup groupKey ⟨OrdMap.erase group.members key, states⟩).Placed b := by
        refine h.setGroup fun before hbefore k hk hmember => ?_
        obtain rfl := Option.some.inj (hgroup.symm.trans hbefore)
        exact PartIndex.mem_keys_erase.2 ⟨hmember, fun heq => hkey (heq ▸ hk)⟩
      refine Ends.modify.bind fun _ left _ hleft => ?_
      subst hleft
      refine (Upkeep.ends_ofExcept fun _ _ => trivial).bind fun _ left _ hleft => ?_
      obtain ⟨-, rfl⟩ := hleft
      split
      next hlast =>
        have hempty := (Bool.and_eq_true_iff.1 hlast).1
        exact .ok ((hset _).removeGroup (OrdMap.get?_insert_self ..) hempty)
      · exact .ok (hset _)

theorem placed_retract (key : Key) (h : view.Placed b) :
    Ends (fun _ after => after.Placed b) (fun _ _ => True) (b.retract ev outer key view) := by
  refine Ends.get.bind fun _ view _ hsame => ?_
  obtain ⟨rfl, rfl⟩ := hsame
  cases htuple : view.tuples.get? key with
  | none => exact .ok h
  | some bound =>
      refine Ends.modify.bind fun _ removed _ hremoved => ?_
      subst hremoved
      cases hgroup : bound.group with
      | none => exact .ok (h.removeTuple key)
      | some groupKey =>
          have hkey : key ∉ (view.removeTuple key).tuples.keys := by
            rw [View.removeTuple, OrdMap.mem_keys, OrdMap.get?_erase_self]
            simp
          exact (placed_leaveGroup (h.removeTuple key) hkey).bind fun _ _ _ h => .ok h

/-- A tuple enters a group. -/
theorem placed_enterGroup (t : Tuple) (h : view.Placed b) :
    Ends (fun groupKey after => after.Placed b ∧ ∃ group,
        after.groups.get? groupKey = some group ∧ t.key ∈ OrdMap.keys group.members)
      (fun _ _ => True) (b.enterGroup ev outer t view) := by
  refine (Upkeep.ends_ofExcept fun _ _ => trivial).bind fun groupKey view _ hsame => ?_
  obtain ⟨-, rfl⟩ := hsame
  refine Ends.get.bind fun _ view _ hsame => ?_
  obtain ⟨rfl, rfl⟩ := hsame
  let group := (view.groups.get? groupKey).getD b.emptyGroup
  have hopened : (view.setGroup groupKey group).Placed b := by
    refine h.setGroup fun before hbefore _ _ hmember => ?_
    change _ ∈ OrdMap.keys ((view.groups.get? groupKey).getD b.emptyGroup).members
    rwa [hbefore]
  refine Ends.modify.bind fun _ opened _ hsame => ?_
  subst hsame
  refine (Upkeep.ends_ofExcept fun _ _ => trivial).bind fun values opened _ hsame => ?_
  obtain ⟨-, rfl⟩ := hsame
  refine Ends.modify.bind fun _ entered _ hsame => ?_
  subst hsame
  refine .ok ⟨hopened.setGroup fun before hbefore key _ hmember => ?_, _,
    OrdMap.get?_insert_self .., OrdSet.mem_keys_add.2 (.inl rfl)⟩
  obtain rfl := Option.some.inj ((OrdMap.get?_insert_self ..).symm.trans hbefore)
  exact OrdSet.mem_keys_add.2 (.inr hmember)

theorem placed_insert (t : Tuple) (h : view.Placed b) :
    Ends (fun _ after => after.Placed b) (fun _ _ => True) (b.insert ev outer t view) := by
  have hindexed : (view.indexTuple t.key).Placed b := h
  refine Ends.modify.bind fun _ indexed _ hsame => ?_
  subst hsame
  split
  next hgrouped =>
    refine (placed_enterGroup t hindexed).bind fun groupKey entered _ hentered => ?_
    obtain ⟨hplaced, group, hgroup, hmember⟩ := hentered
    refine Ends.modify.bind fun _ added _ hsame => ?_
    subst hsame
    refine .ok (hplaced.addTuple t _ ?_)
    rw [if_pos hgrouped]
    exact ⟨groupKey, group, rfl, hgroup, hmember⟩
  next hsingle =>
    refine Ends.modify.bind fun _ added _ hsame => ?_
    subst hsame
    refine .ok (hindexed.addTuple t none ?_)
    rw [if_neg hsingle]

/-- What the removal of a tuple maintains when it succeeds, that of several does. -/
theorem of_retractAll {P : View → Prop}
    (hretract : ∀ {key view touched after}, P view →
      b.retract ev outer key view = .ok touched after → P after)
    {keys touched : List Key} (h : P view)
    (hrun : b.retractAll ev outer keys view = .ok touched after) : P after := by
  induction keys generalizing view touched with
  | nil =>
      cases hrun
      exact h
  | cons key rest ih =>
      obtain ⟨_, left, hleft, hrun⟩ := bind_eq_ok.1 hrun
      obtain ⟨_, _, hrest, hrun⟩ := bind_eq_ok.1 hrun
      cases hrun
      exact ih (hretract h hleft) hrest

theorem of_insertAll {P : View → Prop}
    (hinsert : ∀ {t view touched after}, P view →
      b.insert ev outer t view = .ok touched after → P after)
    {tuples : List Tuple} {touched : List Key} (h : P view)
    (hrun : b.insertAll ev outer tuples view = .ok touched after) : P after := by
  induction tuples generalizing view touched with
  | nil =>
      cases hrun
      exact h
  | cons t rest ih =>
      obtain ⟨_, entered, hentered, hrun⟩ := bind_eq_ok.1 hrun
      obtain ⟨_, _, hrest, hrun⟩ := bind_eq_ok.1 hrun
      cases hrun
      exact ih (hinsert h hentered) hrest

theorem tidy_replaceTuples {outdated : List Key} {added : List Tuple} {touched : List Key}
    (h : view.Tidy b)
    (hrun : b.replaceTuples ev outer outdated added view = .ok touched after) : after.Tidy b := by
  obtain ⟨_, mid, hretracted, hrun⟩ := bind_eq_ok.1 hrun
  obtain ⟨_, _, hinserted, hrun⟩ := bind_eq_ok.1 hrun
  cases hrun
  have hmid : mid.Tidy b := of_retractAll (fun {key _ _ _} h hrun =>
    ⟨filed_retract h.filed hrun, (hrun ▸ placed_retract key h.placed).of_ok⟩) h hretracted
  exact of_insertAll (fun {t _ _ _} h hrun =>
    ⟨filed_insert h.filed hrun, (hrun ▸ placed_insert t h.placed).of_ok⟩) hmid hinserted

theorem tidy_refresh {touched : List Key} {changes : List Change} (h : view.Tidy b)
    (hrun : b.refresh ev outer touched view = .ok changes after) : after.Tidy b := by
  rw [(withRows_refresh hrun).1]
  exact ⟨h.filed.of_bindings rfl, h.placed⟩

theorem tidy_rederive {changes : List Change} (h : view.Tidy b)
    (hrun : b.rederive ev outer view = .ok changes after) : after.Tidy b := by
  have hstart : (b.startFrom view).Tidy b := by
    unfold startFrom
    split
    · exact ⟨(View.Filed.emptyView b).of_bindings rfl, View.Placed.emptyView b⟩
    · exact h
  rw [rederive_eq] at hrun
  obtain ⟨ts, start, hts, hrun⟩ := bind_eq_ok.1 hrun
  obtain ⟨-, rfl⟩ := Upkeep.ofExcept_eq_ok.1 hts
  obtain ⟨_, _, hget, hrun⟩ := bind_eq_ok.1 hrun
  cases hget
  obtain ⟨touched, mid, hreplaced, hrun⟩ := bind_eq_ok.1 hrun
  obtain ⟨_, _, hget, hrun⟩ := bind_eq_ok.1 hrun
  cases hget
  exact tidy_refresh (tidy_replaceTuples hstart hreplaced) hrun

theorem tidy_follow {changed : List (Nat × List Key)} {changes : List Change} (h : view.Tidy b)
    (hrun : b.follow ev changed view = .ok changes after) : after.Tidy b := by
  unfold Blueprint.follow at hrun
  obtain ⟨ts, _, hts, hrun⟩ := bind_eq_ok.1 hrun
  obtain ⟨-, hsame⟩ := Upkeep.ofExcept_eq_ok.1 hts
  rw [hsame] at hrun
  obtain ⟨_, _, hget, hrun⟩ := bind_eq_ok.1 hrun
  cases hget
  obtain ⟨touched, mid, hreplaced, hrun⟩ := bind_eq_ok.1 hrun
  exact tidy_refresh (tidy_replaceTuples h hreplaced) hrun

/-- The views that upkeep leads to as long as it succeeds, whatever it evaluates over. -/
inductive Maintained (b : Blueprint) : View → Prop
  | empty : b.Maintained b.emptyView
  | rederive {view after : View} {changes : List Change} (before : b.Maintained view)
      (ev : Evaluator) (outer : List Frame)
      (run : b.rederive ev outer view = .ok changes after) : b.Maintained after
  | follow {view after : View} {changes : List Change} (before : b.Maintained view)
      (ev : Evaluator) (changed : List (Nat × List Key))
      (run : b.follow ev changed view = .ok changes after) : b.Maintained after

theorem Maintained.tidy (h : b.Maintained view) : view.Tidy b := by
  induction h with
  | empty => exact ⟨.emptyView b, .emptyView b⟩
  | rederive _ ev outer run ih => exact tidy_rederive ih run
  | follow _ ev changed run ih => exact tidy_follow ih run

theorem Maintained.reached (h : b.Maintained view) : b.Reached view := by
  induction h with
  | empty => exact .empty
  | rederive _ ev outer run ih =>
      have hafter := ih.rederive ev outer
      rwa [run] at hafter
  | follow _ ev changed run ih =>
      have hafter := ih.follow ev changed
      rwa [run] at hafter

/-- As long as upkeep succeeds, there is an index for each source, and under a part it has an entry
just if a tuple has the part at that position: then these tuples, and no others. The key of a tuple
has one part for each source, and the group that is recorded with it, if the body is grouped, is
there and has it as a member. -/
theorem index_exact (h : b.Maintained view) :
    view.parts.length = b.joins.steps.length ∧
    (∀ (position : Nat) (index : PartIndex), view.parts[position]? = some index → ∀ part : Scalar,
      (index.get? part = none ↔ ∀ key ∈ view.tuples.keys, key.parts[position]? ≠ some part) ∧
      ∀ keys, index.get? part = some keys → OrdMap.keys keys ≠ [] ∧
        ∀ key, key ∈ OrdMap.keys keys ↔
          key ∈ view.tuples.keys ∧ key.parts[position]? = some part) ∧
    (∀ key ∈ view.tuples.keys, key.parts.length = b.joins.steps.length) ∧
    ∀ key bound, view.tuples.get? key = some bound →
      if b.grouped then ∃ groupKey group, bound.group = some groupKey ∧
        view.groups.get? groupKey = some group ∧ key ∈ OrdMap.keys group.members
      else bound.group = none := by
  obtain ⟨hfiled, hplaced⟩ := h.tidy
  refine ⟨hfiled.length, fun position index hindex part => ?_, h.reached.uniform.tuples, hplaced⟩
  have hposition : position < b.joins.steps.length :=
    hfiled.length ▸ (List.getElem?_eq_some_iff.1 hindex).1
  have hlisted (key : Key) : (∃ keys, index.get? part = some keys ∧ key ∈ OrdMap.keys keys) ↔
      key ∈ view.tuples.keys ∧ key.parts[position]? = some part := by
    have hlists := hfiled.listed position part key
    rw [PartIndex.Lists, List.getD_eq_getElem?_getD, hindex, Option.getD_some] at hlists
    exact hlists.trans (and_congr_right fun _ => and_iff_left hposition)
  have hfull (keys : OrdSet Key) (hkeys : index.get? part = some keys) :
      ∃ key, key ∈ OrdMap.keys keys :=
    hfiled.full index (List.mem_of_getElem? hindex) part keys hkeys
  constructor
  · constructor
    · intro hnone key hkey hpart
      obtain ⟨keys, hkeys, -⟩ := (hlisted key).2 ⟨hkey, hpart⟩
      cases hnone.symm.trans hkeys
    · intro hnone
      refine Option.eq_none_iff_forall_ne_some.2 fun keys hkeys => ?_
      obtain ⟨key, hkey⟩ := hfull keys hkeys
      obtain ⟨hmem, hpart⟩ := (hlisted key).1 ⟨keys, hkeys, hkey⟩
      exact hnone key hmem hpart
  · intro keys hkeys
    obtain ⟨key, hkey⟩ := hfull keys hkeys
    refine ⟨List.ne_nil_of_mem hkey, fun key => ?_⟩
    rw [← hlisted key, hkeys]
    simp

/-- The pairs of rows of a collection with equal fields, in groups by the field. -/
def groupedPairs : Plan :=
  ((do
    let a ← Builder.bind "a" (.collection ⟨0, "rows"⟩) none
    let b ← Builder.bind "b" (.collection ⟨0, "rows"⟩) (some .inner)
    let equal ← Builder.call .eq [.ref ⟨a.body, a.path.get "x"⟩, .ref ⟨b.body, b.path.get "x"⟩]
    Builder.on b (.expr equal)
    Builder.groupBy [.ref ⟨a.body, a.path.get "x"⟩]
    Builder.select [.field "x" (.ref ⟨a.body, a.path.get "x"⟩)] : Builder Unit).run
      (Plan.openQuery {})).2.plan

/-- Pairs over rows with given fields. -/
def evaluatorOf (fields : List (Int64 × Int64)) : Evaluator where
  plan := groupedPairs
  policy := .undefined
  inputs := Plan.inputsOf fields

/-- One of two rows with equal fields gets another one: each makes a pair with itself only, and
under its key there is only this pair. -/
theorem index_exact_pairs :
    ∃ view, (groupedPairs.blueprint default 0).Maintained view ∧
      view.tuples.keys.map Key.parts = [[.int 1, .int 1], [.int 2, .int 2]] ∧
      (∃ index, view.parts[1]? = some index ∧ index.get? (.int 3) = none ∧
        ∀ keys, index.get? (.int 2) = some keys → ∀ key, key ∈ OrdMap.keys keys ↔
          key ∈ view.tuples.keys ∧ key.parts[1]? = some (.int 2)) ∧
      ∀ bound, view.tuples.get? ⟨[.int 1, .int 1]⟩ = some bound → ∃ groupKey group,
        bound.group = some groupKey ∧ view.groups.get? groupKey = some group ∧
          ⟨[.int 1, .int 1]⟩ ∈ OrdMap.keys group.members := by
  obtain ⟨_, before, hderived, hfollowed⟩ :=
    exists_of_run' (x := (groupedPairs.blueprint default 0).rederive
        (evaluatorOf [(1, 8), (2, 8)]) [])
      (s := (groupedPairs.blueprint default 0).emptyView)
      (f := EStateM.run' (do
        let _ ← (groupedPairs.blueprint default 0).follow (evaluatorOf [(1, 7), (2, 8)])
          [(0, [.ofScalar (.int 1)]), (1, [.ofScalar (.int 1)])]
        return ((← get).tuples.keys.map Key.parts)))
      (b := some [[.int 1, .int 1], [.int 2, .int 2]]) (by decide_cbv)
  obtain ⟨_, view, hrun, hkeys⟩ := exists_of_run' hfollowed
  have hview : (groupedPairs.blueprint default 0).Maintained view :=
    .follow (.rederive .empty _ _ hderived) _ _ hrun
  obtain ⟨hlength, hindex, -, hgroups⟩ := index_exact hview
  obtain ⟨index, hsecond⟩ : ∃ index, view.parts[1]? = some index :=
    ⟨_, List.getElem?_eq_getElem (by rw [hlength]; decide +kernel)⟩
  refine ⟨view, hview, hkeys, ⟨index, hsecond, ?_, fun keys hfound =>
    ((hindex 1 index hsecond (.int 2)).2 keys hfound).2⟩, fun bound hbound => ?_⟩
  · refine (hindex 1 index hsecond (.int 3)).1.2 fun key hkey => ?_
    have hparts := List.mem_map_of_mem (f := Key.parts) hkey
    rw [hkeys] at hparts
    rcases List.mem_pair.1 hparts with heq | heq <;> rw [heq] <;> decide
  · have hgroup := hgroups _ bound hbound
    rwa [if_pos (by decide +kernel)] at hgroup

end Blueprint

end LiveQuery
