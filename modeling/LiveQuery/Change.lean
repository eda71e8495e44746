import LiveQuery.Key

/-!
# Changes

What happened to one row of a collection or of a query's result. A deletion carries
the row that was there.
-/

namespace LiveQuery

inductive ChangeKind where
  | insert
  | update
  | delete
deriving DecidableEq

/-- A change of the row at a key. -/
structure Change where
  kind : ChangeKind
  key : Key
  row : Row
deriving DecidableEq

namespace Change

/-- Insertions and updates leave a row at the key. -/
def isUpsert (change : Change) : Bool :=
  change.kind != .delete

/-- The rows after a change. -/
def applyTo (change : Change) (rows : Rows) : Rows :=
  if change.isUpsert then rows.insert change.key change.row else rows.erase change.key

/-- The rows after changes, one after another. -/
def replay (changes : List Change) (rows : Rows) : Rows :=
  changes.foldl (fun rows change => change.applyTo rows) rows

end Change

end LiveQuery
