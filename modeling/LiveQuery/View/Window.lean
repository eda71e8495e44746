import LiveQuery.Change
import LiveQuery.View

/-!
# Windows

The window of a body decides which of its rows are visible, and in which order: with
`distinct` one of each, sorted by the order terms and then by key, without the first
`offset` and at most `limit` of them.
-/

namespace LiveQuery

/-- Compares the values of rows by the order terms. -/
def compareTerms : List OrderTerm → List Scalar → List Scalar → Ordering
  | term :: terms, x :: xs, y :: ys =>
      let first :=
        match term.direction with
        | .asc => compare x y
        | .desc => compare y x
      first.then (compareTerms terms xs ys)
  | _, _, _ => .eq

namespace Body

/-- Compares two rows by the order terms, then by key. -/
def compareRows (body : Body) (a b : Key × StagedRow) : Ordering :=
  (compareTerms body.orderTerms a.2.sort b.2.sort).then (compare a.1 b.1)

/-- The rows that the window chooses from. Distinct rows are identified by themselves;
of equal ones the first is taken. -/
def candidates (body : Body) (staged : OrdMap Key StagedRow) : List (Key × StagedRow) :=
  if body.distinct then
    (staged.values.eraseDupsBy fun s t => s.row == t.row).map fun s =>
      (.ofScalar (.record s.row), s)
  else staged.entries

/-- The visible rows in order. -/
def window (body : Body) (staged : OrdMap Key StagedRow) : List (Key × Row) :=
  let sorted := (body.candidates staged).mergeSort fun a b => (body.compareRows a b).isLE
  let rest := sorted.drop (body.offset.getD 0)
  let cut :=
    match body.limit with
    | some limit => rest.take limit
    | none => rest
  cut.map fun entry => (entry.1, entry.2.row)

end Body

/-- The change of a key between two states, if there is one. -/
def changeAt? (old new : Rows) (key : Key) : Option Change :=
  match old.get? key, new.get? key with
  | some before, none => some ⟨.delete, key, before⟩
  | none, some after => some ⟨.insert, key, after⟩
  | some before, some after => if before = after then none else some ⟨.update, key, after⟩
  | none, none => none

/-- The changes of keys from one state to another: deletions, then the others, both in
the order of the keys. -/
def changesBetween (old new : Rows) (keys : List Key) : List Change :=
  let changes := (OrdSet.ofList keys).keys.filterMap (changeAt? old new)
  changes.filter (!·.isUpsert) ++ changes.filter (·.isUpsert)

end LiveQuery
