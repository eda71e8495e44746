import LiveQuery.Proofs.Map
import LiveQuery.Proofs.View.Upholding

/-!
# The tuples of a view

A view lists its tuples under each of their parts, by position. What is listed under a part has it,
and every tuple of the view is listed; a tuple that could not be put into its group stays listed,
though the view does not have it.

**Invariant.** `View.Indexed`, of every view that upkeep leads to (`Blueprint.Reached.indexed`),
also when it fails.

**Results.** `Blueprint.env?_replaceTuples`: which tuples a view has after it was brought up to
date.
-/

namespace LiveQuery

namespace PartIndex

/-- A tuple is listed at a position under a part. -/
def Lists (parts : List PartIndex) (position : Nat) (part : Scalar) (key : Key) : Prop :=
  ∃ keys, (parts.getD position OrdMap.empty).get? part = some keys ∧ key ∈ OrdMap.keys keys

theorem not_lists_nil {position : Nat} {part : Scalar} {key : Key} :
    ¬Lists [] position part key := by
  rintro ⟨keys, hkeys, _⟩
  cases hkeys

theorem lists_zero {index : PartIndex} {others : List PartIndex} {part : Scalar} {key : Key} :
    Lists (index :: others) 0 part key ↔
      ∃ keys, index.get? part = some keys ∧ key ∈ OrdMap.keys keys :=
  Iff.rfl

theorem lists_succ {index : PartIndex} {others : List PartIndex} {position : Nat} {part : Scalar}
    {key : Key} :
    Lists (index :: others) (position + 1) part key ↔ Lists others position part key :=
  Iff.rfl

@[simp] theorem length_addTuple (key : Key) (own : List Scalar) (parts : List PartIndex) :
    (addTuple key own parts).length = parts.length := by
  induction own generalizing parts with
  | nil => rfl
  | cons part rest ih =>
      cases parts with
      | nil => rfl
      | cons index others => exact congrArg (· + 1) (ih others)

@[simp] theorem length_removeTuple (key : Key) (own : List Scalar) (parts : List PartIndex) :
    (removeTuple key own parts).length = parts.length := by
  induction own generalizing parts with
  | nil => rfl
  | cons part rest ih =>
      cases parts with
      | nil => rfl
      | cons index others => exact congrArg (· + 1) (ih others)

/-- What an index lists under a part after a tuple was noted under one. -/
theorem mem_insert_part {key : Key} {own : Scalar} {index : PartIndex} {part : Scalar} {k : Key} :
    (∃ keys,
        (index.insert own (((index.get? own).getD OrdMap.empty).add key)).get? part = some keys ∧
        k ∈ OrdMap.keys keys) ↔
      (∃ keys, index.get? part = some keys ∧ k ∈ OrdMap.keys keys) ∨ k = key ∧ own = part := by
  rw [OrdMap.get?_insert_eq]
  by_cases hpart : part = own
  · subst hpart
    cases hget : index.get? part with
    | none => simp [OrdSet.mem_keys_add]
    | some keys => simp [OrdSet.mem_keys_add, or_comm]
  · simp [hpart, Ne.symm hpart]

theorem lists_addTuple {key : Key} {own : List Scalar} {parts : List PartIndex} {position : Nat}
    {part : Scalar} {k : Key} :
    Lists (addTuple key own parts) position part k ↔
      Lists parts position part k ∨
        k = key ∧ own[position]? = some part ∧ position < parts.length := by
  induction own generalizing parts position with
  | nil =>
      have hsame : addTuple key [] parts = parts := rfl
      simp [hsame]
  | cons first rest ih =>
      cases parts with
      | nil =>
          have hsame : addTuple key (first :: rest) [] = [] := rfl
          simp [hsame]
      | cons index others =>
          cases position with
          | zero =>
              rw [addTuple, lists_zero, lists_zero, mem_insert_part]
              simp
          | succ position =>
              rw [addTuple, lists_succ, ih, lists_succ]
              simp

theorem mem_keys_erase {keys : OrdSet Key} {key k : Key} :
    k ∈ OrdMap.keys (OrdMap.erase keys key) ↔ k ∈ OrdMap.keys keys ∧ k ≠ key := by
  rw [OrdMap.mem_keys, OrdMap.mem_keys, OrdMap.get?_erase_eq]
  by_cases hk : k = key <;> simp [hk]

/-- What an index lists under a part after a tuple was taken out under one. -/
theorem mem_removePart {key : Key} {own : Scalar} {index : PartIndex} {part : Scalar} {k : Key} :
    (∃ keys, (removePart key own index).get? part = some keys ∧ k ∈ OrdMap.keys keys) ↔
      (∃ keys, index.get? part = some keys ∧ k ∈ OrdMap.keys keys) ∧ ¬(k = key ∧ own = part) := by
  unfold removePart
  cases hown : index.get? own with
  | none =>
      dsimp only
      refine ⟨fun h => ⟨h, ?_⟩, And.left⟩
      rintro ⟨-, rfl⟩
      obtain ⟨keys, hkeys, -⟩ := h
      cases hown.symm.trans hkeys
  | some keys =>
      dsimp only
      by_cases hpart : part = own
      · subst hpart
        have hleft : k ∈ OrdMap.keys (OrdMap.erase keys key) ↔ k ∈ OrdMap.keys keys ∧ k ≠ key :=
          mem_keys_erase
        split
        next hempty =>
          rw [OrdMap.isEmpty_iff.1 hempty, OrdMap.keys_empty] at hleft
          simp only [OrdMap.get?_erase_self, hown]
          simpa using hleft
        next => simpa [hown] using hleft
      · have hsame : (if (OrdMap.erase keys key).isEmpty then index.erase own
            else index.insert own (OrdMap.erase keys key)).get? part = index.get? part := by
          split
          · rw [OrdMap.get?_erase_eq, if_neg hpart]
          · rw [OrdMap.get?_insert_eq, if_neg hpart]
        rw [hsame]
        simp [Ne.symm hpart]

theorem lists_removeTuple {key : Key} {own : List Scalar} {parts : List PartIndex} {position : Nat}
    {part : Scalar} {k : Key} :
    Lists (removeTuple key own parts) position part k ↔
      Lists parts position part k ∧ ¬(k = key ∧ own[position]? = some part) := by
  induction own generalizing parts position with
  | nil =>
      have hsame : removeTuple key [] parts = parts := rfl
      simp [hsame]
  | cons first rest ih =>
      cases parts with
      | nil =>
          have hsame : removeTuple key (first :: rest) [] = [] := rfl
          simp [hsame, not_lists_nil]
      | cons index others =>
          cases position with
          | zero =>
              rw [removeTuple, lists_zero, lists_zero, mem_removePart]
              simp
          | succ position =>
              rw [removeTuple, lists_succ, ih, lists_succ]
              simp

end PartIndex

/-! ## What upkeep does to the tuples -/

/-- The tuples of a view and their index. -/
def View.bindings (view : View) : OrdMap Key BoundTuple × List PartIndex :=
  (view.tuples, view.parts)

/-- The values that a tuple of a view binds. -/
def View.env? (view : View) (key : Key) : Option (List Scalar) :=
  (view.tuples.get? key).map BoundTuple.env

namespace Blueprint

variable (b : Blueprint) (ev : Evaluator) (outer : List Frame)

theorem keepsBindings_leaveGroup (groupKey key : Key) (env : List Scalar) :
    Keeps View.bindings (b.leaveGroup ev outer groupKey key env) := by
  refine Keeps.get.bind fun view => ?_
  split
  · exact Keeps.throw _
  next group _ =>
    obtain ⟨states, outcome⟩ :=
      takeOutAll ev (b.frames outer env) groupKey b.aggregates group.states
    refine Keeps.bind (Keeps.modify fun _ => rfl) fun _ => ?_
    refine (Upkeep.keeps_ofExcept _).bind fun _ => ?_
    split
    · exact Keeps.modify fun _ => rfl
    · exact Keeps.pure _

theorem keepsBindings_enterGroup (t : Tuple) :
    Keeps View.bindings (b.enterGroup ev outer t) := by
  refine (Upkeep.keeps_ofExcept _).bind fun groupKey => ?_
  refine Keeps.get.bind fun view => ?_
  refine Keeps.bind (Keeps.modify fun _ => rfl) fun _ => ?_
  refine (Upkeep.keeps_ofExcept _).bind fun values => ?_
  exact Keeps.bind (Keeps.modify fun _ => rfl) fun _ => Keeps.pure _

theorem keepsBindings_refresh (touched : List Key) :
    Keeps View.bindings (b.refresh ev outer touched) := by
  have hstage (keys : List Key) : Keeps View.bindings (b.stageAll ev outer keys) := by
    induction keys with
    | nil => exact Keeps.pure _
    | cons key rest ih =>
        refine Keeps.get.bind fun view => ?_
        refine (Upkeep.keeps_ofExcept _).bind fun _ => ?_
        exact Keeps.bind (Keeps.modify fun _ => rfl) fun _ => ih
  refine (hstage _).bind fun _ view => ?_
  obtain ⟨changes, hrun, -⟩ := b.publish_exact (OrdSet.ofList touched).keys view
  rw [hrun]
  rfl

variable {b ev outer} {view after : View}

/-- A tuple that a view has is taken out of its tuples and of the index. -/
theorem bindings_retract {key : Key} {touched : List Key}
    (h : b.retract ev outer key view = .ok touched after) : after.bindings =
      if (view.tuples.get? key).isSome then (view.removeTuple key).bindings else view.bindings := by
  obtain ⟨_, _, hget, h⟩ := bind_eq_ok.1 h
  cases hget
  cases htuple : view.tuples.get? key with
  | none =>
      rw [htuple] at h
      cases h
      rfl
  | some bound =>
      rw [htuple] at h
      obtain ⟨_, removed, hremoved, h⟩ := bind_eq_ok.1 h
      cases hremoved
      cases hgroup : bound.group with
      | none =>
          rw [hgroup] at h
          cases h
          rfl
      | some groupKey =>
          rw [hgroup] at h
          obtain ⟨_, left, hleft, h⟩ := bind_eq_ok.1 h
          cases h
          exact (b.keepsBindings_leaveGroup ev outer groupKey key bound.env).of_ok hleft

theorem tuples_retract {key : Key} {touched : List Key}
    (h : b.retract ev outer key view = .ok touched after) :
    after.tuples = view.tuples.erase key := by
  have hbindings := bindings_retract h
  split at hbindings
  next => exact congrArg Prod.fst hbindings
  next hnone =>
    rw [OrdMap.erase_eq_self (by simpa using hnone)]
    exact congrArg Prod.fst hbindings

/-- A tuple is noted in the index and added to the tuples of a view. -/
theorem bindings_insert {t : Tuple} {touched : Key}
    (h : b.insert ev outer t view = .ok touched after) :
    ∃ group, after.bindings = ((view.indexTuple t.key).addTuple t group).bindings := by
  obtain ⟨_, indexed, hindexed, h⟩ := bind_eq_ok.1 h
  cases hindexed
  split at h
  · obtain ⟨groupKey, entered, hentered, h⟩ := bind_eq_ok.1 h
    obtain ⟨_, added, hadded, h⟩ := bind_eq_ok.1 h
    cases hadded
    cases h
    have hbindings : entered.bindings = (view.indexTuple t.key).bindings :=
      (b.keepsBindings_enterGroup ev outer t).of_ok hentered
    obtain ⟨htuples, hparts⟩ := Prod.mk.inj hbindings
    refine ⟨some touched, ?_⟩
    simp only [View.bindings, View.addTuple, htuples, hparts]
  · obtain ⟨_, added, hadded, h⟩ := bind_eq_ok.1 h
    cases hadded
    cases h
    exact ⟨none, rfl⟩

theorem tuples_insert {t : Tuple} {touched : Key}
    (h : b.insert ev outer t view = .ok touched after) :
    ∃ group, after.tuples = view.tuples.insert t.key { env := t.env, group } := by
  obtain ⟨group, hbindings⟩ := bindings_insert h
  exact ⟨group, congrArg Prod.fst hbindings⟩

theorem env?_retractAll {keys touched : List Key}
    (h : b.retractAll ev outer keys view = .ok touched after) (k : Key) :
    after.env? k = if k ∈ keys then none else view.env? k := by
  induction keys generalizing view touched with
  | nil =>
      cases h
      simp
  | cons key rest ih =>
      obtain ⟨_, left, hleft, h⟩ := bind_eq_ok.1 h
      obtain ⟨_, _, hrest, h⟩ := bind_eq_ok.1 h
      cases h
      have hfirst : left.env? k = if k = key then none else view.env? k := by
        rw [View.env?, tuples_retract hleft, OrdMap.get?_erase_eq]
        split <;> rfl
      rw [ih hrest, hfirst]
      by_cases hk : k = key <;> by_cases hmem : k ∈ rest <;> simp [hk, hmem]

theorem env?_insertAll_of_not_mem {tuples : List Tuple} {touched : List Key}
    (h : b.insertAll ev outer tuples view = .ok touched after) {k : Key}
    (hk : k ∉ tuples.map Tuple.key) : after.env? k = view.env? k := by
  induction tuples generalizing view touched with
  | nil =>
      cases h
      rfl
  | cons t rest ih =>
      obtain ⟨_, entered, hentered, h⟩ := bind_eq_ok.1 h
      obtain ⟨_, _, hrest, h⟩ := bind_eq_ok.1 h
      cases h
      obtain ⟨hne, hnew⟩ := not_or.1 (mt List.mem_cons.2 hk)
      obtain ⟨group, htuples⟩ := tuples_insert hentered
      rw [ih hrest hnew, View.env?, htuples, OrdMap.get?_insert_eq, if_neg hne]
      rfl

theorem env?_insertAll_of_mem {tuples : List Tuple} (hnodup : (tuples.map Tuple.key).Nodup)
    {touched : List Key} (h : b.insertAll ev outer tuples view = .ok touched after) {t : Tuple}
    (ht : t ∈ tuples) : after.env? t.key = some t.env := by
  induction tuples generalizing view touched with
  | nil => cases ht
  | cons first rest ih =>
      obtain ⟨_, entered, hentered, h⟩ := bind_eq_ok.1 h
      obtain ⟨_, _, hrest, h⟩ := bind_eq_ok.1 h
      cases h
      obtain ⟨hnew, hrestNodup⟩ := List.nodup_cons.1 hnodup
      rcases List.mem_cons.1 ht with rfl | ht
      · obtain ⟨group, htuples⟩ := tuples_insert hentered
        rw [env?_insertAll_of_not_mem hrest hnew, View.env?, htuples, OrdMap.get?_insert_self]
        rfl
      · exact ih hrestNodup hrest ht

theorem mem_newTuples {derived : OrdMap Key (List Scalar)} {t : Tuple} :
    t ∈ newTuples view derived ↔
      derived.get? t.key = some t.env ∧ view.env? t.key ≠ some t.env := by
  obtain ⟨key, env⟩ := t
  simp only [newTuples, List.mem_map, List.mem_filter, Tuple.mk.injEq, OrdMap.get?_eq_some_iff,
    decide_eq_true_eq]
  constructor
  · rintro ⟨entry, ⟨hmem, hne⟩, rfl, rfl⟩
    exact ⟨hmem, hne⟩
  · rintro ⟨hmem, hne⟩
    exact ⟨(key, env), ⟨hmem, hne⟩, rfl, rfl⟩

theorem nodup_newTuples (view : View) (derived : OrdMap Key (List Scalar)) :
    ((newTuples view derived).map Tuple.key).Nodup := by
  have hkeys : (newTuples view derived).map Tuple.key = ((derived.entries.filter fun entry =>
      (view.tuples.get? entry.1).map BoundTuple.env ≠ some entry.2).map Prod.fst) := by
    rw [newTuples, List.map_map]
    rfl
  rw [hkeys]
  exact derived.nodup_keys.sublist (List.filter_sublist.map Prod.fst)

theorem mem_outdated {derived : OrdMap Key (List Scalar)} {keys : List Key} {k : Key} :
    k ∈ outdated view derived keys ↔ k ∈ keys ∧ derived.get? k ≠ view.env? k := by
  simp only [outdated, List.mem_filter, decide_eq_true_eq, View.env?]

/-- A view that was brought up to date has the tuples that were derived, and of the others those
that were not looked at. -/
theorem env?_replaceTuples {derived : OrdMap Key (List Scalar)} {keys touched : List Key}
    (h : b.replaceTuples ev outer (outdated view derived keys) (newTuples view derived) view
      = .ok touched after) (k : Key) :
    after.env? k = (derived.get? k).or (if k ∈ keys then none else view.env? k) := by
  obtain ⟨_, mid, hretracted, h⟩ := bind_eq_ok.1 h
  obtain ⟨_, _, hinserted, h⟩ := bind_eq_ok.1 h
  cases h
  by_cases hnew : k ∈ (newTuples view derived).map Tuple.key
  · obtain ⟨t, ht, rfl⟩ := List.mem_map.1 hnew
    rw [env?_insertAll_of_mem (nodup_newTuples view derived) hinserted ht, (mem_newTuples.1 ht).1]
    rfl
  · rw [env?_insertAll_of_not_mem hinserted hnew, env?_retractAll hretracted]
    simp only [mem_outdated]
    cases hderived : derived.get? k with
    | some env =>
        have hkept : view.env? k = some env := by
          by_contra hne
          exact hnew (List.mem_map.2 ⟨⟨k, env⟩, mem_newTuples.2 ⟨hderived, hne⟩, rfl⟩)
        simp [hkept]
    | none =>
        by_cases hmem : k ∈ keys
        · cases henv : view.env? k <;> simp [hmem]
        · simp [hmem]

end Blueprint

/-! ## The index -/

/-- Tuples are listed under their parts, and all tuples of the view are. -/
structure View.Indexed (b : Blueprint) (view : View) : Prop where
  length : view.parts.length = b.joins.steps.length
  sound : ∀ position part key, PartIndex.Lists view.parts position part key →
    key.parts[position]? = some part
  complete : ∀ key ∈ view.tuples.keys, ∀ position < b.joins.steps.length, ∀ part,
    key.parts[position]? = some part → PartIndex.Lists view.parts position part key

namespace View.Indexed

variable {b : Blueprint} {view view' : View}

theorem of_bindings (h : view.Indexed b) (hsame : view'.bindings = view.bindings) :
    view'.Indexed b := by
  obtain ⟨htuples, hparts⟩ := Prod.mk.inj hsame
  constructor
  · rw [hparts]
    exact h.length
  · rw [hparts]
    exact h.sound
  · rw [htuples, hparts]
    exact h.complete

theorem emptyView (b : Blueprint) : b.emptyView.Indexed b where
  length := List.length_map _
  sound position part key h := by
    obtain ⟨keys, hkeys, -⟩ := h
    rw [Blueprint.emptyView, List.getD_eq_getElem?_getD, List.getElem?_map] at hkeys
    cases hstep : b.joins.steps[position]? <;> rw [hstep] at hkeys <;> cases hkeys
  complete key h := by cases h

theorem removeTuple (h : view.Indexed b) (key : Key) : (view.removeTuple key).Indexed b where
  length := (PartIndex.length_removeTuple ..).trans h.length
  sound position part k hlists := h.sound position part k (PartIndex.lists_removeTuple.1 hlists).1
  complete k hk position hposition part hpart := by
    obtain ⟨bound, hbound⟩ := OrdMap.mem_keys.1 hk
    rw [View.removeTuple, OrdMap.get?_erase_eq] at hbound
    split at hbound
    · cases hbound
    next hne =>
      exact PartIndex.lists_removeTuple.2
        ⟨h.complete k (OrdMap.mem_keys.2 ⟨bound, hbound⟩) position hposition part hpart,
          fun heq => hne heq.1⟩

theorem indexTuple (h : view.Indexed b) (key : Key) : (view.indexTuple key).Indexed b where
  length := (PartIndex.length_addTuple ..).trans h.length
  sound position part k hlists := by
    rcases PartIndex.lists_addTuple.1 hlists with hlists | ⟨rfl, hpart, -⟩
    · exact h.sound position part k hlists
    · exact hpart
  complete k hk position hposition part hpart :=
    PartIndex.lists_addTuple.2 (.inl (h.complete k hk position hposition part hpart))

/-- A tuple is added that has been noted in the index. -/
theorem addTuple (h : view.Indexed b) (t : Tuple) (group : Option Key)
    (hnoted : ∀ position < b.joins.steps.length, ∀ part, t.key.parts[position]? = some part →
      PartIndex.Lists view.parts position part t.key) : (view.addTuple t group).Indexed b where
  length := h.length
  sound := h.sound
  complete k hk position hposition part hpart := by
    rcases OrdMap.mem_keys_insert.1 hk with rfl | hk
    · exact hnoted position hposition part hpart
    · exact h.complete k hk position hposition part hpart

end View.Indexed

namespace Blueprint

variable {b : Blueprint} {ev : Evaluator} {outer : List Frame} {view : View}

/-- An operation that leaves the tuples and their index alone. -/
theorem indexed_of_keeps {α : Type} {x : Upkeep α} (hx : Keeps View.bindings x)
    (h : view.Indexed b) : Safe (View.Indexed b) (fun _ => True) x view :=
  ⟨h.of_bindings (hx view), fun _ => trivial⟩

theorem indexed_retract (key : Key) (h : view.Indexed b) :
    Safe (View.Indexed b) (fun _ => True) (b.retract ev outer key) view := by
  refine (Safe.get h).bind fun view _ hget h => ?_
  cases hget
  cases htuple : view.tuples.get? key with
  | none => exact .pure h _
  | some bound =>
      refine (Safe.modify (h.removeTuple key)).bind fun _ view _ h => ?_
      cases hgroup : bound.group with
      | none => exact .pure h _
      | some groupKey =>
          exact (indexed_of_keeps
            (b.keepsBindings_leaveGroup ev outer groupKey key bound.env) h).bind
            fun _ _ _ h => .pure h _

theorem indexed_insert (t : Tuple) (h : view.Indexed b) :
    Safe (View.Indexed b) (fun _ => True) (b.insert ev outer t) view := by
  have hnoted : ∀ after : View, after.bindings = (view.indexTuple t.key).bindings →
      ∀ position < b.joins.steps.length, ∀ part, t.key.parts[position]? = some part →
        PartIndex.Lists after.parts position part t.key := by
    intro after hafter position hposition part hpart
    rw [show after.parts = (view.indexTuple t.key).parts from (Prod.mk.inj hafter).2]
    exact PartIndex.lists_addTuple.2 (.inr ⟨rfl, hpart, h.length ▸ hposition⟩)
  refine (Safe.modify (h.indexTuple t.key)).bind fun _ indexed hindexed h => ?_
  cases hindexed
  split
  · refine (indexed_of_keeps (b.keepsBindings_enterGroup ev outer t) h).bind
      fun groupKey entered hentered h => ?_
    have hsame := (b.keepsBindings_enterGroup ev outer t).of_ok hentered
    exact (Safe.modify (h.addTuple t _ (hnoted entered hsame))).bind fun _ _ _ h => .pure h _
  · exact (Safe.modify (h.addTuple t none (hnoted _ rfl))).bind fun _ _ _ h => .pure h _

theorem indexed_replaceTuples (outdated : List Key) (added : List Tuple) (h : view.Indexed b) :
    Safe (View.Indexed b) (fun _ => True) (b.replaceTuples ev outer outdated added) view :=
  safe_replaceTuples indexed_retract (fun t _ => indexed_insert t) outdated h

theorem indexed_refresh (touched : List Key) (h : view.Indexed b) :
    Safe (View.Indexed b) (fun _ => True) (b.refresh ev outer touched) view :=
  indexed_of_keeps (b.keepsBindings_refresh ev outer touched) h

theorem indexed_rederive (ev : Evaluator) (outer : List Frame) (h : view.Indexed b) :
    Safe (View.Indexed b) (fun _ => True) (b.rederive ev outer) view := by
  have hstart : (b.startFrom view).Indexed b := by
    unfold startFrom
    split
    · exact (View.Indexed.emptyView b).of_bindings rfl
    · exact h
  exact safe_rederive hstart (fun _ _ _ outdated => indexed_replaceTuples outdated _)
    indexed_refresh

theorem indexed_follow (ev : Evaluator) (changed : List (Nat × List Key)) (h : view.Indexed b) :
    Safe (View.Indexed b) (fun _ => True) (b.follow ev changed) view :=
  safe_follow changed h (fun _ _ _ _ outdated => indexed_replaceTuples outdated _) indexed_refresh

/-- The views that upkeep leads to, also when it fails. -/
inductive Reached (b : Blueprint) : View → Prop
  | empty : b.Reached b.emptyView
  | rederive {view : View} (before : b.Reached view) (ev : Evaluator) (outer : List Frame) :
      b.Reached (stateAfter (b.rederive ev outer view))
  | follow {view : View} (before : b.Reached view) (ev : Evaluator)
      (changed : List (Nat × List Key)) : b.Reached (stateAfter (b.follow ev changed view))

theorem Reached.indexed (h : b.Reached view) : view.Indexed b := by
  induction h with
  | empty => exact .emptyView b
  | rederive _ ev outer ih => exact (indexed_rederive ev outer ih).after
  | follow _ ev changed ih => exact (indexed_follow ev changed ih).after

end Blueprint

end LiveQuery
