import LiveQuery.Proofs.Evaluator
import LiveQuery.Proofs.Tuple

/-!
# Joins over fewer rows

A join of fewer rows makes fewer tuples, one step after another, as long as a row that is left out
could only have joined into tuples that are left out later, and takes no part in a step that shows
the rows of one side alone. What is kept of the rows of a source and of the tuples so far is said by
predicates; they have to fit together in each step (`Thins`).

**Results.** `JoinPlan.runStep_thinned` for one step, `JoinPlan.runSteps_thinned` for all of them.
-/

namespace LiveQuery

namespace JoinPlan

section

variable (ev ev' : Evaluator) (body : BodyId) (outer : List Frame)

/-- The rows that may join a tuple in a step. -/
def rowsFor (step : JoinStep) (shared : Option Rows) (t : PartialTuple) : Except EvalError Rows :=
  match shared with
  | some rows => .ok rows
  | none => ev.inputs.rows step.source (frames body outer t.env)

/-- At a position, one evaluator reads the rows that `keep` holds of, of those that another one
reads. Then `after` holds of a tuple just if `before` holds of what it extends and `keep` of the row
it is extended by. A step of an outer join leaves out no tuples, and if it shows the rows that
nothing joins, no rows either. -/
structure Thins (step : JoinStep) (position : Nat) (shared shared' : Option Rows)
    (keep : Key × Row → Bool) (before after : PartialTuple → Bool) : Prop where
  admits : ∀ frames, ev.admits frames step.condition = ev'.admits frames step.condition
  shares : shared'.isSome = shared.isSome
  rows : ∀ t rows, rowsFor ev body outer step shared t = .ok rows →
    ∃ rows', rowsFor ev' body outer step shared' t = .ok rows' ∧
      rows'.entries = rows.entries.filter keep
  joined : ∀ t : PartialTuple, t.env.length = position → ∀ entry,
    ev.admits (frames body outer (t.bind entry).env) step.condition = .ok true →
      after (t.bind entry) = (before t && keep entry)
  outer : step.keepsLeft = true ∨ step.keepsRight = true →
    ∀ t, before t = true ∧ after t = true
  right : step.keepsRight = true → ∀ entry, keep entry = true

end

variable {ev ev' : Evaluator} {body : BodyId} {outer : List Frame}
variable {step : JoinStep} {position : Nat} {shared shared' : Option Rows}
variable {keep : Key × Row → Bool} {before after : PartialTuple → Bool}

theorem extendAll_cons (t : PartialTuple) (rest : List PartialTuple) :
    extendAll ev body outer step shared (t :: rest) = do
      let rows ← rowsFor ev body outer step shared t
      let entries ← matching ev body outer step t rows.entries
      let (tuples, keys) ← extendAll ev body outer step shared rest
      return (extended step t entries ++ tuples, entries.map Prod.fst ++ keys) := by
  cases shared <;> rfl

/-! ## The length of tuples -/

theorem length_of_extended {t t' : PartialTuple} {entries : List (Key × Row)}
    (h : t' ∈ extended step t entries) : t'.env.length = t.env.length + 1 := by
  unfold extended at h
  split at h
  · obtain rfl := List.mem_singleton.1 h
    exact List.length_append
  · obtain ⟨entry, _, rfl⟩ := List.mem_map.1 h
    exact List.length_append

theorem length_of_extendAll {tuples joined : List PartialTuple} {keys : List Key}
    (hlength : ∀ t ∈ tuples, t.env.length = position)
    (h : extendAll ev body outer step shared tuples = .ok (joined, keys)) :
    ∀ t ∈ joined, t.env.length = position + 1 := by
  induction tuples generalizing joined keys with
  | nil =>
      cases h
      exact fun _ h => absurd h List.not_mem_nil
  | cons t rest ih =>
      obtain ⟨ht, hrest⟩ := List.forall_mem_cons.1 hlength
      rw [extendAll_cons] at h
      obtain ⟨rows, _, h⟩ := Except.bind_eq_ok.1 h
      obtain ⟨entries, _, h⟩ := Except.bind_eq_ok.1 h
      obtain ⟨⟨others, _⟩, hothers, h⟩ := Except.bind_eq_ok.1 h
      cases h
      intro t' ht'
      rcases List.mem_append.1 ht' with ht' | ht'
      · rw [length_of_extended ht', ht]
      · exact ih hrest hothers t' ht'

theorem length_of_runStep {tuples joined : List PartialTuple}
    (hlength : ∀ t ∈ tuples, t.env.length = position)
    (h : runStep ev body outer step position shared tuples = .ok joined) :
    ∀ t ∈ joined, t.env.length = position + 1 := by
  obtain ⟨⟨joined', keys⟩, hextended, h⟩ := Except.bind_eq_ok.1 h
  have hjoined := length_of_extendAll hlength hextended
  dsimp only at h
  split at h
  · cases h
    intro t ht
    rcases List.mem_append.1 ht with ht | ht
    · exact hjoined t ht
    · obtain ⟨entry, _, rfl⟩ := List.mem_map.1 ht
      simp [PartialTuple.missing, PartialTuple.bind]
  · cases h
    exact hjoined

/-! ## One step -/

namespace Thins

theorem filter_eq_self (h : Thins ev ev' body outer step position shared shared' keep before after)
    (houter : step.keepsLeft = true ∨ step.keepsRight = true) (tuples : List PartialTuple) :
    tuples.filter before = tuples ∧ tuples.filter after = tuples :=
  ⟨List.filter_eq_self.2 fun t _ => (h.outer houter t).1,
    List.filter_eq_self.2 fun t _ => (h.outer houter t).2⟩

/-- What is kept of a tuple and the rows that join it. -/
theorem filter_extended (h : Thins ev ev' body outer step position shared shared' keep before after)
    {t : PartialTuple} (ht : t.env.length = position) {entries : List (Key × Row)}
    (hjoins : ∀ entry ∈ entries,
      ev.admits (frames body outer (t.bind entry).env) step.condition = .ok true) :
    (extended step t entries).filter after
      = if before t then extended step t (entries.filter keep) else [] := by
  have hjoined : ∀ entry ∈ entries, after (t.bind entry) = (before t && keep entry) :=
    fun entry hentry => h.joined t ht entry (hjoins entry hentry)
  cases hleft : step.keepsLeft with
  | true =>
      -- no row that joins is left out, so the tuple is extended as before
      obtain ⟨hbefore, -⟩ := h.outer (.inl hleft) t
      have hkeep : entries.filter keep = entries := by
        refine List.filter_eq_self.2 fun entry hentry => ?_
        have hafter := hjoined entry hentry
        rwa [(h.outer (.inl hleft) _).2, hbefore, Bool.true_and, eq_comm] at hafter
      rw [(h.filter_eq_self (.inl hleft) _).2, hbefore, if_pos rfl, hkeep]
  | false =>
      have hextended (es : List (Key × Row)) : extended step t es = es.map t.bind := by
        simp [extended, hleft]
      rw [hextended, hextended, List.filter_map]
      cases hbefore : before t with
      | true =>
          rw [if_pos rfl]
          refine congrArg _ (List.filter_congr fun entry hentry => ?_)
          rw [Function.comp_apply, hjoined entry hentry, hbefore, Bool.true_and]
      | false =>
          rw [if_neg Bool.false_ne_true, List.map_eq_nil_iff, List.filter_eq_nil_iff]
          intro entry hentry
          rw [Function.comp_apply, hjoined entry hentry, hbefore, Bool.false_and]
          exact Bool.false_ne_true

theorem exists_extendAll
    (h : Thins ev ev' body outer step position shared shared' keep before after)
    {tuples joined : List PartialTuple} {keys : List Key}
    (hlength : ∀ t ∈ tuples, t.env.length = position)
    (hrun : extendAll ev body outer step shared tuples = .ok (joined, keys)) :
    ∃ keys', extendAll ev' body outer step shared' (tuples.filter before)
        = .ok (joined.filter after, keys') ∧
      (step.keepsRight = true → keys' = keys) := by
  induction tuples generalizing joined keys with
  | nil =>
      cases hrun
      exact ⟨[], rfl, fun _ => rfl⟩
  | cons t rest ih =>
      obtain ⟨ht, hrest⟩ := List.forall_mem_cons.1 hlength
      rw [extendAll_cons] at hrun
      obtain ⟨rows, hrows, hrun⟩ := Except.bind_eq_ok.1 hrun
      obtain ⟨entries, hentries, hrun⟩ := Except.bind_eq_ok.1 hrun
      obtain ⟨⟨others, otherKeys⟩, hothers, hrun⟩ := Except.bind_eq_ok.1 hrun
      cases hrun
      obtain ⟨keys', hothers', hkeys⟩ := ih hrest hothers
      obtain ⟨hall, hfound⟩ := matching_eq_ok.1 hentries
      have hjoins : ∀ entry ∈ entries,
          ev.admits (frames body outer (t.bind entry).env) step.condition = .ok true := by
        intro entry hentry
        rw [hfound] at hentry
        exact Except.isTrue_iff.1 (List.mem_filter.1 hentry).2
      rw [List.filter_append, h.filter_extended ht hjoins]
      -- a tuple that is left out takes all it is extended to with it
      cases hbefore : before t with
      | false =>
          rw [List.filter_cons_of_neg (by rw [hbefore]; exact Bool.false_ne_true)]
          refine ⟨keys', hothers', fun hright => ?_⟩
          rw [(h.outer (.inr hright) t).1] at hbefore
          cases hbefore
      | true =>
          obtain ⟨rows', hrows', hkept⟩ := h.rows t rows hrows
          have hentries' : matching ev' body outer step t rows'.entries
              = .ok (entries.filter keep) := by
            simp only [matching_eq_ok, ← h.admits, hkept]
            refine ⟨fun entry hentry => hall entry (List.mem_filter.1 hentry).1, ?_⟩
            rw [hfound, List.filter_filter, List.filter_filter]
            exact List.filter_congr fun entry _ => Bool.and_comm _ _
          rw [List.filter_cons_of_pos hbefore, extendAll_cons]
          refine ⟨_, Except.bind_eq_ok.2 ⟨rows', hrows', Except.bind_eq_ok.2 ⟨_, hentries',
            Except.bind_eq_ok.2 ⟨_, hothers', rfl⟩⟩⟩, fun hright => ?_⟩
          rw [hkeys hright, List.filter_eq_self.2 fun entry _ => h.right hright entry]

end Thins

/-- A step makes of the tuples that are kept those that are kept of what it made. -/
theorem runStep_thinned
    (h : Thins ev ev' body outer step position shared shared' keep before after)
    {tuples joined : List PartialTuple} (hlength : ∀ t ∈ tuples, t.env.length = position)
    (hrun : runStep ev body outer step position shared tuples = .ok joined) :
    runStep ev' body outer step position shared' (tuples.filter before)
      = .ok (joined.filter after) := by
  obtain ⟨⟨bound, keys⟩, hextended, hrun⟩ := Except.bind_eq_ok.1 hrun
  obtain ⟨keys', hextended', hkeys⟩ := h.exists_extendAll hlength hextended
  refine Except.bind_eq_ok.2 ⟨_, hextended', ?_⟩
  cases hright : step.keepsRight with
  | false =>
      simp only [hright] at hrun ⊢
      exact congrArg _ (congrArg (List.filter after) (Except.pure_eq_ok.1 hrun))
  | true =>
      -- the same keys have joined, so the same rows are shown alone
      rw [(h.filter_eq_self (.inr hright) _).2, (h.filter_eq_self (.inr hright) _).2,
        hkeys hright]
      have hshares := h.shares
      cases shared with
      | none =>
          obtain rfl := Option.not_isSome_iff_eq_none.1 (by rw [hshares]; exact Bool.false_ne_true)
          exact hrun
      | some rows =>
          obtain ⟨rows', rfl⟩ := Option.isSome_iff_exists.1 hshares
          obtain ⟨_, hrows', hkept⟩ := h.rows {} rows rfl
          obtain rfl := Except.ok.inj hrows'
          rw [List.filter_eq_self.2 fun entry _ => h.right hright entry] at hkept
          simp only [hright, unmatched, hkept] at hrun ⊢
          exact hrun

/-! ## All steps -/

/-- The steps of a join make of the tuples that are kept those that are kept in the end. -/
theorem runSteps_thinned {kept : Nat → PartialTuple → Bool} {steps : List JoinStep}
    (h : ∀ (i : Nat) (step : JoinStep), steps[i]? = some step → ∀ shared,
      sharedRows ev outer none step (position + i) = .ok shared →
        ∃ shared' keep, sharedRows ev' outer none step (position + i) = .ok shared' ∧
          Thins ev ev' body outer step (position + i) shared shared' keep
            (kept (position + i)) (kept (position + i + 1)))
    {tuples joined : List PartialTuple} (hlength : ∀ t ∈ tuples, t.env.length = position)
    (hrun : runSteps ev body outer none position tuples steps = .ok joined) :
    runSteps ev' body outer none position (tuples.filter (kept position)) steps
      = .ok (joined.filter (kept (position + steps.length))) := by
  induction steps generalizing position tuples with
  | nil =>
      cases hrun
      rfl
  | cons step steps ih =>
      obtain ⟨shared, hshared, hrun⟩ := Except.bind_eq_ok.1 hrun
      obtain ⟨next, hnext, hrun⟩ := Except.bind_eq_ok.1 hrun
      obtain ⟨shared', _, hshared', hthins⟩ := h 0 step rfl shared hshared
      refine Except.bind_eq_ok.2 ⟨shared', hshared', Except.bind_eq_ok.2
        ⟨_, runStep_thinned hthins hlength hnext, ?_⟩⟩
      rw [List.length_cons, Nat.add_comm steps.length 1, ← Nat.add_assoc]
      refine ih (fun i step hi => ?_) (length_of_runStep hlength hnext) hrun
      rw [Nat.add_assoc, Nat.add_comm 1 i]
      exact h (i + 1) step hi

end JoinPlan

end LiveQuery
