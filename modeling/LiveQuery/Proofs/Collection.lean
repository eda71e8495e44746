import LiveQuery.Proofs.Replay

/-!
# Transactions

The batch of a transaction says what it does to a collection: replayed on the rows before it
gives those after, and each change fits where it is replayed.

**Results.** `Collection.leads_of_apply`.
-/

namespace LiveQuery

namespace Collection

theorem get?_foldl_set_of_not_mem {entries : List (Key × Option Row)} {rows : Rows} {k : Key}
    (h : k ∉ entries.map Prod.fst) :
    (entries.foldl (fun rows entry => rows.set entry.1 entry.2) rows).get? k = rows.get? k := by
  induction entries generalizing rows with
  | nil => rfl
  | cons entry rest ih =>
      obtain ⟨hne, hrest⟩ := not_or.1 (mt List.mem_cons.2 h)
      rw [List.foldl_cons, ih hrest, OrdMap.get?_set, if_neg hne]

theorem get?_foldl_set_of_mem {entries : List (Key × Option Row)} {rows : Rows} {k : Key}
    {row : Option Row} (hnodup : (entries.map Prod.fst).Nodup) (h : (k, row) ∈ entries) :
    (entries.foldl (fun rows entry => rows.set entry.1 entry.2) rows).get? k = row := by
  induction entries generalizing rows with
  | nil => cases h
  | cons entry rest ih =>
      obtain ⟨hfirst, hrest⟩ := List.nodup_cons.1 hnodup
      rw [List.foldl_cons]
      rcases List.mem_cons.1 h with rfl | h
      · rw [get?_foldl_set_of_not_mem hfirst, OrdMap.get?_set, if_pos rfl]
      · exact ih hrest h

/-- Staged rows stand for those that they would leave. -/
theorem get?_commit (c : Collection) (staged : Staged) (k : Key) :
    (commit c.rows staged).get? k = c.current staged k := by
  unfold commit current
  cases hget : staged.get? k with
  | some row => exact get?_foldl_set_of_mem staged.nodup_keys (OrdMap.get?_eq_some_iff.1 hget)
  | none =>
      refine get?_foldl_set_of_not_mem fun hmem => ?_
      obtain ⟨row, hrow⟩ := OrdMap.mem_keys.1 hmem
      cases hget.symm.trans hrow

/-- A write that passes makes a change that fits the rows so far. -/
theorem fits_of_check {c : Collection} {staged : Staged} {write : Write} {change : Change}
    (h : c.check staged write = .ok change) : change.Fits (commit c.rows staged) := by
  unfold Change.Fits
  rw [get?_commit]
  cases write with
  | insert key row =>
      simp only [check] at h
      split at h
      · cases h
      next hnone =>
        cases h
        exact hnone
  | update key row =>
      simp only [check] at h
      split at h
      next present hsome =>
        cases h
        exact ⟨present, hsome⟩
      · cases h
  | delete key =>
      simp only [check] at h
      split at h
      next present hsome =>
        cases h
        exact ⟨present, hsome⟩
      · cases h

theorem applyTo_commit (c : Collection) (staged : Staged) (change : Change) :
    change.applyTo (commit c.rows staged)
      = commit c.rows (staged.insert change.key (outcome change)) := by
  refine OrdMap.ext_get? fun k => ?_
  rw [Change.get?_applyTo, get?_commit, get?_commit]
  unfold current
  rw [OrdMap.get?_insert_eq]
  split <;> rfl

theorem leads_of_stage {c : Collection} {staged staged' : Staged} {writes : List Write}
    {changes : List Change} (h : c.stage staged writes = .ok (staged', changes)) :
    Change.Leads (commit c.rows staged) changes (commit c.rows staged') := by
  induction writes generalizing staged changes with
  | nil =>
      cases h
      exact .nil _
  | cons write rest ih =>
      unfold stage at h
      cases hcheck : c.check staged write with
      | error error =>
          rw [hcheck] at h
          cases h
      | ok change =>
          rw [hcheck] at h
          dsimp only at h
          cases hrest : c.stage (staged.insert change.key (outcome change)) rest with
          | error error =>
              rw [hrest] at h
              cases h
          | ok result =>
              obtain ⟨after, changes'⟩ := result
              rw [hrest] at h
              cases h
              refine .cons (fits_of_check hcheck) ?_
              rw [applyTo_commit]
              exact ih hrest

/-- A transaction leads from the rows before to the rows after by its batch. -/
theorem leads_of_apply {c c' : Collection} {writes : List Write} {changes : List Change}
    (h : c.apply writes = .ok (c', changes)) : Change.Leads c.rows changes c'.rows := by
  unfold apply at h
  cases hstage : c.stage .empty writes with
  | error error =>
      rw [hstage] at h
      cases h
  | ok result =>
      obtain ⟨staged, changes'⟩ := result
      rw [hstage] at h
      cases h
      exact leads_of_stage hstage

end Collection

end LiveQuery
