import LiveQuery.OrdMap
import LiveQuery.Scalar.Text

/-!
# Keys

A key identifies a row among the rows of a collection or of a query's result. It is a
list of scalars: a row of a collection mostly has one part, a row of a result is
identified by the keys of the rows it was made of, by the values of its group, or by
the row itself.
-/

namespace LiveQuery

/-- The parts that identify a row. -/
structure Key where
  parts : List Scalar
deriving DecidableEq, Inhabited

namespace Key

instance : Ord Key :=
  ⟨compareOn parts⟩

instance : Std.TransOrd Key :=
  inferInstanceAs (Std.TransCmp (compareOn parts))

instance : Std.LawfulEqOrd Key where
  eq_of_compare {a b} h := by
    cases a
    cases b
    exact congrArg Key.mk (Std.LawfulEqOrd.eq_of_compare h)

/-- The key with one part. -/
def ofScalar (value : Scalar) : Key :=
  ⟨[value]⟩

/-- A key as one value: its only part, or a row of its parts. -/
def toScalar (key : Key) : Scalar :=
  match key.parts with
  | [value] => value
  | parts => .record (Row.ofPositions parts)

/-- The key made of other keys, with null for one that is not there. -/
def composite (keys : List (Option Key)) : Key :=
  ⟨keys.map fun
    | some key => key.toScalar
    | none => .null⟩

/-- The parts, separated by bars. -/
def toText (key : Key) : String :=
  "|".intercalate (key.parts.map Scalar.toText)

@[simp] theorem parts_ofScalar (value : Scalar) : (ofScalar value).parts = [value] := rfl

@[simp] theorem toScalar_ofScalar (value : Scalar) : (ofScalar value).toScalar = value := rfl

@[simp] theorem length_parts_composite (keys : List (Option Key)) :
    (composite keys).parts.length = keys.length := by
  simp [composite]

end Key

/-- Rows by key. -/
abbrev Rows := OrdMap Key Row

end LiveQuery
