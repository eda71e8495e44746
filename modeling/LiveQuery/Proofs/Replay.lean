import LiveQuery.Collection
import LiveQuery.View.Window
import LiveQuery.Proofs.Map

/-!
# Replaying changes

Changes are made to rows one after another. What is told about two states of an output
is exact when it names each row that differs once, as what happened to it, and nothing
else; then it can be replayed on the first state and gives the second one.

**Results.** `exact_changesBetween`: the changes between two states are exact as soon as
the given keys cover the differences. `Exact.leads`: exact changes fit one after another
and lead from the first state to the second.
-/

namespace LiveQuery

namespace Change

/-- The rows in which a change can happen: an insertion comes to a free key, the other
changes find a row. -/
def Fits (rows : Rows) (change : Change) : Prop :=
  match change.kind with
  | .insert => rows.get? change.key = none
  | .update => ∃ row, rows.get? change.key = some row
  | .delete => ∃ row, rows.get? change.key = some row

/-- Changes that fit when they happen one after another, and the rows that they leave. -/
inductive Leads : Rows → List Change → Rows → Prop
  | nil (rows : Rows) : Leads rows [] rows
  | cons {rows after : Rows} {change : Change} {rest : List Change}
      (fits : change.Fits rows) (leads : Leads (change.applyTo rows) rest after) :
      Leads rows (change :: rest) after

/-- Changes that say what differs between two states, deletions first: each differing
key once, what is new with its row, what is gone with the row that was there. -/
structure Exact (before after : Rows) (changes : List Change) : Prop where
  nodup : (changes.map key).Nodup
  insertion : ∀ c ∈ changes, c.kind = .insert →
    before.get? c.key = none ∧ after.get? c.key = some c.row
  update : ∀ c ∈ changes, c.kind = .update →
    ∃ row, before.get? c.key = some row ∧ row ≠ c.row ∧ after.get? c.key = some c.row
  deletion : ∀ c ∈ changes, c.kind = .delete →
    before.get? c.key = some c.row ∧ after.get? c.key = none
  complete : ∀ key, before.get? key ≠ after.get? key → key ∈ changes.map Change.key
  deletionsFirst : changes.Pairwise fun c d => d.kind = .delete → c.kind = .delete

/-! ## One change -/

theorem applyTo_eq_set (change : Change) (rows : Rows) :
    change.applyTo rows = rows.set change.key (Collection.outcome change) := by
  unfold applyTo Collection.outcome
  split <;> rfl

theorem get?_applyTo (change : Change) (rows : Rows) (k : Key) :
    (change.applyTo rows).get? k
      = if k = change.key then Collection.outcome change else rows.get? k := by
  rw [applyTo_eq_set, OrdMap.get?_set]

theorem isUpsert_eq_false_iff {change : Change} :
    change.isUpsert = false ↔ change.kind = .delete := by
  simp [isUpsert]

theorem isUpsert_iff {change : Change} : change.isUpsert = true ↔ change.kind ≠ .delete := by
  simp [isUpsert]

/-! ## Several changes -/

@[simp] theorem replay_nil (rows : Rows) : replay [] rows = rows := rfl

@[simp] theorem replay_cons (change : Change) (rest : List Change) (rows : Rows) :
    replay (change :: rest) rows = replay rest (change.applyTo rows) := rfl

theorem get?_replay_of_not_mem {changes : List Change} {rows : Rows} {k : Key}
    (h : k ∉ changes.map key) : (replay changes rows).get? k = rows.get? k := by
  induction changes generalizing rows with
  | nil => rfl
  | cons change rest ih =>
      obtain ⟨hne, hrest⟩ := not_or.1 (mt List.mem_cons.2 h)
      rw [replay_cons, ih hrest, get?_applyTo, if_neg hne]

theorem get?_replay_of_mem {changes : List Change} {rows : Rows} {change : Change}
    (hnodup : (changes.map key).Nodup) (h : change ∈ changes) :
    (replay changes rows).get? change.key = Collection.outcome change := by
  induction changes generalizing rows with
  | nil => cases h
  | cons first rest ih =>
      obtain ⟨hfirst, hrest⟩ := List.nodup_cons.1 hnodup
      rw [replay_cons]
      rcases List.mem_cons.1 h with rfl | h
      · rw [get?_replay_of_not_mem hfirst, get?_applyTo, if_pos rfl]
      · exact ih hrest h

namespace Leads

theorem replay_eq {before after : Rows} {changes : List Change}
    (h : Leads before changes after) : replay changes before = after := by
  induction h with
  | nil rows => rfl
  | cons _ _ ih => exact ih

theorem append {before between after : Rows} {changes later : List Change}
    (h : Leads before changes between) (h' : Leads between later after) :
    Leads before (changes ++ later) after := by
  induction h with
  | nil rows => exact h'
  | cons fits _ ih => exact .cons fits (ih h')

theorem split {before after : Rows} {changes later : List Change}
    (h : Leads before (changes ++ later) after) :
    ∃ between, Leads before changes between ∧ Leads between later after := by
  induction changes generalizing before with
  | nil => exact ⟨before, .nil before, h⟩
  | cons change rest ih =>
      cases h with
      | cons fits leads =>
          obtain ⟨between, hchanges, hlater⟩ := ih leads
          exact ⟨between, .cons fits hchanges, hlater⟩

/-- Changes of different keys that each fit at the beginning fit one after another. -/
theorem of_nodup {changes : List Change} {rows : Rows} (hnodup : (changes.map key).Nodup)
    (hfits : ∀ c ∈ changes, c.Fits rows) : Leads rows changes (replay changes rows) := by
  induction changes generalizing rows with
  | nil => exact .nil rows
  | cons first rest ih =>
      obtain ⟨hfirst, hrest⟩ := List.nodup_cons.1 hnodup
      refine .cons (hfits first List.mem_cons_self) (ih hrest fun c hc => ?_)
      have hne : c.key ≠ first.key := fun heq => hfirst (heq ▸ List.mem_map_of_mem hc)
      have hbefore := hfits c (List.mem_cons_of_mem _ hc)
      unfold Fits at hbefore ⊢
      rwa [get?_applyTo, if_neg hne]

end Leads

namespace Exact

variable {before after : Rows} {changes : List Change}

theorem fits (h : Exact before after changes) {c : Change} (hc : c ∈ changes) :
    c.Fits before := by
  unfold Fits
  cases hkind : c.kind with
  | insert => exact (h.insertion c hc hkind).1
  | update => exact (h.update c hc hkind).imp fun _ hrow => hrow.1
  | delete => exact ⟨_, (h.deletion c hc hkind).1⟩

theorem outcome_eq (h : Exact before after changes) {c : Change} (hc : c ∈ changes) :
    Collection.outcome c = after.get? c.key := by
  unfold Collection.outcome
  cases hkind : c.kind with
  | insert =>
      rw [if_pos (isUpsert_iff.2 (by simp [hkind])), (h.insertion c hc hkind).2]
  | update =>
      obtain ⟨_, _, _, hafter⟩ := h.update c hc hkind
      rw [if_pos (isUpsert_iff.2 (by simp [hkind])), hafter]
  | delete =>
      have hupsert : c.isUpsert = false := isUpsert_eq_false_iff.2 hkind
      rw [hupsert, if_neg Bool.false_ne_true, (h.deletion c hc hkind).2]

theorem replay_eq (h : Exact before after changes) : replay changes before = after :=
  OrdMap.ext_get? fun k => by
    by_cases hk : k ∈ changes.map key
    · obtain ⟨c, hc, rfl⟩ := List.mem_map.1 hk
      rw [get?_replay_of_mem h.nodup hc, h.outcome_eq hc]
    · rw [get?_replay_of_not_mem hk]
      exact not_not.1 (mt (h.complete k) hk)

/-- Exact changes can be replayed. -/
theorem leads (h : Exact before after changes) : Leads before changes after := by
  rw [← h.replay_eq]
  exact .of_nodup h.nodup fun _ hc => h.fits hc

/-- Where nothing differs, there is nothing to tell. -/
theorem refl (rows : Rows) : Exact rows rows [] where
  nodup := .nil
  insertion _ hc := (List.not_mem_nil hc).elim
  update _ hc := (List.not_mem_nil hc).elim
  deletion _ hc := (List.not_mem_nil hc).elim
  complete _ hne := (hne rfl).elim
  deletionsFirst := .nil

end Exact

end Change

/-! ## The changes between two states -/

theorem key_of_changeAt? {old new : Rows} {k : Key} {c : Change}
    (h : changeAt? old new k = some c) : c.key = k := by
  unfold changeAt? at h
  grind

theorem changeAt?_isSome_iff {old new : Rows} {k : Key} :
    (changeAt? old new k).isSome ↔ old.get? k ≠ new.get? k := by
  unfold changeAt?
  grind

theorem mem_changesBetween {old new : Rows} {keys : List Key} {c : Change} :
    c ∈ changesBetween old new keys ↔ c.key ∈ keys ∧ changeAt? old new c.key = some c := by
  have hsplit : c ∈ changesBetween old new keys
      ↔ c ∈ (OrdSet.ofList keys).keys.filterMap (changeAt? old new) := by
    simp only [changesBetween, List.mem_append, List.mem_filter]
    cases c.isUpsert <;> simp
  rw [hsplit, List.mem_filterMap]
  constructor
  · rintro ⟨k, hk, hc⟩
    obtain rfl := key_of_changeAt? hc
    exact ⟨OrdSet.mem_keys_ofList.1 hk, hc⟩
  · rintro ⟨hk, hc⟩
    exact ⟨c.key, OrdSet.mem_keys_ofList.2 hk, hc⟩

theorem nodup_keys_changesBetween (old new : Rows) (keys : List Key) :
    ((changesBetween old new keys).map Change.key).Nodup := by
  have hperm : (changesBetween old new keys).Perm
      ((OrdSet.ofList keys).keys.filterMap (changeAt? old new)) := by
    have := List.filter_append_perm (fun c : Change => !c.isUpsert)
      ((OrdSet.ofList keys).keys.filterMap (changeAt? old new))
    simpa [changesBetween] using this
  refine (hperm.map Change.key).nodup_iff.2 ?_
  have hsub : (((OrdSet.ofList keys).keys.filterMap (changeAt? old new)).map Change.key).Sublist
      (OrdSet.ofList keys).keys := by
    generalize (OrdSet.ofList keys).keys = ks
    induction ks with
    | nil => exact .slnil
    | cons k rest ih =>
        rw [List.filterMap_cons]
        split
        · exact .cons _ ih
        next c hc =>
          rw [List.map_cons, key_of_changeAt? hc]
          exact .cons_cons _ ih
  exact hsub.nodup (OrdMap.nodup_keys _)

/-- The changes of keys that cover all differences are exact. -/
theorem exact_changesBetween {old new : Rows} {keys : List Key}
    (h : ∀ k, old.get? k ≠ new.get? k → k ∈ keys) :
    Change.Exact old new (changesBetween old new keys) where
  nodup := nodup_keys_changesBetween old new keys
  insertion c hc hkind := by
    have := (mem_changesBetween.1 hc).2
    unfold changeAt? at this
    grind
  update c hc hkind := by
    have := (mem_changesBetween.1 hc).2
    unfold changeAt? at this
    grind
  deletion c hc hkind := by
    have := (mem_changesBetween.1 hc).2
    unfold changeAt? at this
    grind
  complete k hk := by
    obtain ⟨c, hc⟩ := Option.isSome_iff_exists.1 (changeAt?_isSome_iff.2 hk)
    obtain rfl := key_of_changeAt? hc
    exact List.mem_map_of_mem (mem_changesBetween.2 ⟨h _ hk, hc⟩)
  deletionsFirst := by
    refine List.pairwise_append.2 ⟨?_, ?_, ?_⟩
    · refine List.Pairwise.imp_of_mem (fun {c d} hc _ _ _ => ?_)
        (List.pairwise_of_forall (R := fun _ _ => True) fun _ _ => trivial)
      simpa [Change.isUpsert] using (List.mem_filter.1 hc).2
    · refine List.Pairwise.imp_of_mem (fun {c d} _ hd _ hkind => ?_)
        (List.pairwise_of_forall (R := fun _ _ => True) fun _ _ => trivial)
      exact absurd hkind (Change.isUpsert_iff.1 (List.mem_filter.1 hd).2)
    · intro c hc d hd hkind
      exact absurd hkind (Change.isUpsert_iff.1 (List.mem_filter.1 hd).2)

/-! ## Output as insertions -/

/-! ## Whole outputs -/

/-- The entries of an output that lists each key once, inserted one after another, give the
output. -/
theorem Change.leads_insertions {output : List (Key × Row)} (hnodup : (output.map Prod.fst).Nodup) :
    Leads .empty (output.map fun entry => ⟨.insert, entry.1, entry.2⟩) (.ofList output) := by
  have hkeys : (output.map fun entry => (⟨.insert, entry.1, entry.2⟩ : Change)).map key
      = output.map Prod.fst := by
    rw [List.map_map]
    rfl
  have hreplay : replay (output.map fun entry => ⟨.insert, entry.1, entry.2⟩) .empty
      = .ofList output := by
    unfold replay OrdMap.ofList OrdMap.insertAll
    rw [List.foldl_map]
    rfl
  rw [← hreplay]
  refine .of_nodup (hkeys ▸ hnodup) fun c hc => ?_
  obtain ⟨entry, _, rfl⟩ := List.mem_map.1 hc
  rfl

end LiveQuery
