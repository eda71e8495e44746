import LiveQuery.Proofs.Collection
import LiveQuery.Proofs.Session.Parts

/-!
# Transactions are sequential

A transaction is checked against the rows with the staged writes laid over them. This says what
running its writes one after another on the rows themselves says: the same write is the first
that cannot run, and if all can, the same rows are left. The batch retells the run: one change
for each write, each of which finds what it tells of.

**Results.** `Collection.stage_runs`: staging follows the run of the writes.
`Session.write_atomic`: a transaction is refused as a whole, or leaves the rows of the run and
hands one batch to those who listen.
-/

namespace LiveQuery

/-! ## Writes one after another -/

namespace Write

/-- The rows after a write, if it can run: what is inserted must not be there, what is updated
or deleted must be. -/
def run? (rows : Rows) : Write → Option Rows
  | insert key row =>
      match rows.get? key with
      | some _ => none
      | none => some (rows.insert key row)
  | update key row =>
      match rows.get? key with
      | some _ => some (rows.insert key row)
      | none => none
  | delete key =>
      match rows.get? key with
      | some _ => some (rows.erase key)
      | none => none

/-- The rows after writes that run one after another, or the first one that cannot run. -/
def runAll (rows : Rows) : List Write → Except Write Rows
  | [] => .ok rows
  | write :: rest =>
      match write.run? rows with
      | none => .error write
      | some after => runAll after rest

/-- The error of a write that cannot run. -/
def refusal (collection : String) : Write → CollectionError
  | insert key _ => .duplicateKey collection key
  | update key _ => .missingKey collection key
  | delete key => .missingKey collection key

/-- A change is of the kind of a write and of its key. It has the row that the write brings, if
it brings one. -/
def Makes (change : Change) : Write → Prop
  | insert key row => change = ⟨.insert, key, row⟩
  | update key row => change = ⟨.update, key, row⟩
  | delete key => change.kind = .delete ∧ change.key = key

end Write

namespace Change

/-- A change finds in the rows what it tells of: an insertion a free key, an update a row, and
a deletion the row that it carries. -/
def Finds (rows : Rows) (change : Change) : Prop :=
  match change.kind with
  | .insert => rows.get? change.key = none
  | .update => ∃ row, rows.get? change.key = some row
  | .delete => rows.get? change.key = some change.row

/-- Changes that find what they tell of when they happen one after another, and the rows that
they leave. -/
inductive Retells : Rows → List Change → Rows → Prop
  | nil (rows : Rows) : Retells rows [] rows
  | cons {rows after : Rows} {change : Change} {rest : List Change} (finds : change.Finds rows)
      (retells : Retells (change.applyTo rows) rest after) : Retells rows (change :: rest) after

end Change

/-! ## Staging -/

namespace Collection

/-- A staged write is checked against the rows that the staged writes before it leave. -/
theorem check_runs (c : Collection) (staged : Staged) (write : Write) :
    match write.run? (commit c.rows staged) with
    | none => c.check staged write = .error (write.refusal c.name)
    | some rows =>
        ∃ change, c.check staged write = .ok change ∧ Write.Makes change write ∧
          change.Finds (commit c.rows staged) ∧ change.applyTo (commit c.rows staged) = rows := by
  cases write with
  | insert key row =>
      simp only [Write.run?, check, get?_commit]
      cases hcurrent : c.current staged key with
      | some present => rfl
      | none => exact ⟨_, rfl, rfl, (get?_commit c staged key).trans hcurrent, rfl⟩
  | update key row =>
      simp only [Write.run?, check, get?_commit]
      cases hcurrent : c.current staged key with
      | some present => exact ⟨_, rfl, rfl, ⟨present, (get?_commit c staged key).trans hcurrent⟩, rfl⟩
      | none => rfl
  | delete key =>
      simp only [Write.run?, check, get?_commit]
      cases hcurrent : c.current staged key with
      | some present => exact ⟨_, rfl, ⟨rfl, rfl⟩, (get?_commit c staged key).trans hcurrent, rfl⟩
      | none => rfl

/-- Staging fails at the first write that cannot run, and otherwise stages the rows that the
run of the writes leaves. -/
theorem stage_runs (c : Collection) (staged : Staged) (writes : List Write) :
    match Write.runAll (commit c.rows staged) writes with
    | .error write => c.stage staged writes = .error (write.refusal c.name)
    | .ok rows =>
        ∃ staged' changes, c.stage staged writes = .ok (staged', changes) ∧
          commit c.rows staged' = rows ∧ List.Forall₂ Write.Makes changes writes ∧
          Change.Retells (commit c.rows staged) changes rows := by
  induction writes generalizing staged with
  | nil => exact ⟨staged, [], rfl, rfl, .nil, .nil _⟩
  | cons write rest ih =>
      have hcheck := c.check_runs staged write
      simp only [Write.runAll, stage]
      cases hrun : write.run? (commit c.rows staged) with
      | none =>
          rw [hrun] at hcheck
          simp only [hcheck]
      | some rows =>
          rw [hrun] at hcheck
          obtain ⟨change, hchange, hmakes, hfinds, happly⟩ := hcheck
          have hrest := ih (staged.insert change.key (outcome change))
          rw [← applyTo_commit, happly] at hrest
          simp only [hchange]
          cases hall : Write.runAll rows rest with
          | error refused =>
              rw [hall] at hrest
              simp only [hrest]
          | ok final =>
              rw [hall] at hrest
              obtain ⟨staged', changes, hstage, hcommit, hforall, hretells⟩ := hrest
              refine ⟨staged', change :: changes, by simp only [hstage], hcommit, .cons hmakes hforall,
                .cons hfinds ?_⟩
              rwa [happly]

theorem apply_runs (c : Collection) (writes : List Write) :
    match Write.runAll c.rows writes with
    | .error write => c.apply writes = .error (write.refusal c.name)
    | .ok rows =>
        ∃ changes, c.apply writes = .ok ({ c with rows }, changes) ∧
          List.Forall₂ Write.Makes changes writes ∧ Change.Retells c.rows changes rows := by
  have hstage := c.stage_runs .empty writes
  rw [show commit c.rows .empty = c.rows from rfl] at hstage
  cases hrun : Write.runAll c.rows writes with
  | error write =>
      rw [hrun] at hstage
      simp only [apply, hstage]
  | ok rows =>
      rw [hrun] at hstage
      obtain ⟨staged, changes, hstaged, rfl, hmakes, hretells⟩ := hstage
      exact ⟨changes, by simp only [apply, hstaged], hmakes, hretells⟩

end Collection

/-! ## Transactions of a session -/

namespace Session

/-- A session in which the writes of a transaction have taken effect, and the batch is still to
be told to those who listen. -/
def commit (s : Session) (id : CollectionId) (rows : Rows) (batch : List Change) : Session :=
  { s with
    stores := s.stores.modify id fun store =>
      { store with collection := { (s.store id).collection with rows } }
    tasks := (if batch = [] then [] else [.notify id batch (s.store id).listeners.values])
      ++ .finish none :: s.tasks }

theorem contents_commit (s : Session) {id : CollectionId} (there : id < s.stores.length)
    (rows : Rows) (batch : List Change) : (s.commit id rows batch).contents id = rows := by
  have hstore := s.store_modifyStore id
    (fun store => { store with collection := { (s.store id).collection with rows } }) id
  rw [if_pos ⟨rfl, there⟩] at hstore
  exact congrArg (fun store => store.collection.rows) hstore

/-- A transaction fails just if its writes cannot all run one after another, at the first one
that cannot; then nothing has happened but the call. Otherwise its rows are those that the run
leaves, and those who listen are to be told one batch that retells it, if there were writes. -/
theorem write_atomic (s : Session) {id : CollectionId} (there : id < s.stores.length)
    (writes : List Write) :
    match Write.runAll (s.contents id) writes with
    | .error write =>
        s.write id writes
          = (s.push (.finish none), .error (write.refusal (s.store id).collection.name))
    | .ok rows =>
        ∃ batch, s.write id writes = (s.commit id rows batch, .ok ()) ∧
          (s.commit id rows batch).contents id = rows ∧
          List.Forall₂ Write.Makes batch writes ∧ Change.Retells (s.contents id) batch rows := by
  have happly := (s.store id).collection.apply_runs writes
  unfold contents write at *
  cases hrun : Write.runAll (s.store id).collection.rows writes with
  | error refused =>
      rw [hrun] at happly
      simp only [happly]
  | ok rows =>
      rw [hrun] at happly
      obtain ⟨batch, hbatch, hmakes, hretells⟩ := happly
      refine ⟨batch, ?_, s.contents_commit there rows batch, hmakes, hretells⟩
      simp only [hbatch]
      cases batch with
      | nil => rfl
      | cons change rest => rfl

/-- A key is freed and taken again, updated, and freed in one transaction. -/
theorem write_atomic_rewriting :
    ∃ s : Session, 0 < s.stores.length ∧ ∃ (writes : List Write) (rows : Rows), writes.length = 4 ∧
      Write.runAll (s.contents 0) writes = .ok rows ∧
        ∃ batch, s.write 0 writes = (s.commit 0 rows batch, .ok ()) ∧
          (s.commit 0 rows batch).contents 0 = rows ∧
          List.Forall₂ Write.Makes batch writes ∧ Change.Retells (s.contents 0) batch rows := by
  let key : Key := ⟨[.int 1]⟩
  let rows : Rows := .ofList [(key, .nil)]
  let s : Session := { plan := {}, stores := [{ collection := ⟨"rows", none, rows⟩ }] }
  let writes : List Write :=
    [.delete key, .insert key (.cons "x" (.int 1) .nil), .update key (.cons "x" (.int 2) .nil),
      .delete key]
  have hrun : Write.runAll (s.contents 0) writes = .ok .empty := rfl
  have there : 0 < s.stores.length := Nat.one_pos
  have hatomic := write_atomic s there writes
  rw [hrun] at hatomic
  exact ⟨s, there, writes, .empty, rfl, hrun, hatomic⟩

end Session

end LiveQuery
