import LiveQuery.Proofs.Collection
import LiveQuery.Proofs.Engine.Output

/-!
# Incremental is batch

The output of an engine that follows the batches of its collections is compared with that of an
evaluation from scratch. Keys of rows become parts of the keys of tuples, and two of them may
become one there.

**Results.** `Engine.converges_fails_within_transaction`: a batch inserts a row whose key becomes
one with another, and deletes it again; afterwards the two outputs differ.
-/

namespace LiveQuery

/-- Keys of rows that are told apart where they are parts of the keys of tuples. -/
def Rows.Apart (rows : Rows) : Prop :=
  ∀ k ∈ rows.keys, ∀ k' ∈ rows.keys, k.toScalar = k'.toScalar → k = k'

namespace Engine

/-- The query for the rows of one collection. -/
def allRows : Plan :=
  (queryOver ⟨0, "rows"⟩ fun rows => Builder.selectValue (.ref rows)).plan

/-- A key with one part, the record that `pairKey` becomes as part of another key. -/
def recordKey : Key :=
  .ofScalar (.record (.ofPositions [.int 1, .int 2]))

def pairKey : Key :=
  ⟨[.int 1, .int 2]⟩

/-- The output of a query that is loaded and then told of a batch, if nothing fails. -/
def outputAfter (plan : Plan) (contents : CollectionId → Rows) (batch : List Change) :
    Option (List (Key × Row)) := do
  let made ← (ofQuery plan 0 .undefined).toOption
  match load contents made with
  | .error _ _ => none
  | .ok _ e =>
      match apply 0 batch e with
      | .error _ _ => none
      | .ok _ e => some e.snapshot

theorem of_outputAfter {plan : Plan} {contents : CollectionId → Rows} {batch : List Change}
    {output : List (Key × Row)} (h : outputAfter plan contents batch = some output) :
    ∃ made e changes e', ofQuery plan 0 .undefined = .ok made ∧
      load contents made = .ok () e ∧ apply 0 batch e = .ok changes e' ∧
      e'.snapshot = output := by
  unfold outputAfter at h
  cases hmade : ofQuery plan 0 .undefined with
  | error error =>
      rw [hmade] at h
      cases h
  | ok made =>
      rw [hmade] at h
      change (match load contents made with | .error _ _ => none | .ok _ e => _) = _ at h
      split at h
      · cases h
      next e hload =>
        split at h
        · cases h
        next changes e' happly =>
          cases h
          exact ⟨made, e, changes, e', rfl, hload, happly, rfl⟩

theorem converges_fails_within_transaction :
    ∃ (made e e' : Engine) (c c' : Collection) (batch changes : List Change),
      ofQuery allRows 0 .undefined = .ok made ∧
      load (fun _ => c.rows) made = .ok () e ∧
      c.apply [.insert pairKey .nil, .delete pairKey] = .ok (c', batch) ∧
      apply 0 batch e = .ok changes e' ∧
      c.rows.Apart ∧ c'.rows.Apart ∧
      evaluate allRows 0 .undefined (fun _ => c'.rows) ≠ .ok e'.snapshot := by
  let c : Collection := ⟨"rows", none, OrdMap.ofList [(recordKey, .nil)]⟩
  obtain ⟨made, e, changes, e', hmade, hload, happly, houtput⟩ :=
    of_outputAfter (show outputAfter allRows (fun _ => c.rows)
      [⟨.insert, pairKey, .nil⟩, ⟨.delete, pairKey, .nil⟩] = some [] by decide +kernel)
  refine ⟨made, e, e', c, c, _, changes, hmade, hload, rfl, happly, ?_, ?_, ?_⟩
  · unfold Rows.Apart
    decide +kernel
  · unfold Rows.Apart
    decide +kernel
  · rw [houtput]
    decide +kernel

end Engine

end LiveQuery
