import LiveQuery.Change
import LiveQuery.Json.Record

/-!
# Tagged changes

Changes are kept in JSON with a tag on each scalar that names its kind, so that nothing
is lost but the values of infinite floats: integers and floats stay apart, and missing
values stay in rows. An integer may stand for a float.
-/

namespace LiveQuery

mutual

/-- A scalar under the tag of its kind. -/
def Scalar.toTagged : Scalar → Json
  | .undefined => .text "Undefined"
  | .null => .text "Null"
  | .bool b => .object [("Bool", .bool b)]
  | .int i => .object [("Int", .int i.toInt)]
  | .float x => .object [("Float", if x.isFinite then .float x else .null)]
  | .text s => .object [("Str", .text s)]
  | .record row => .object [("Record", .object (Row.toTaggedFields row))]

def Row.toTaggedFields : Row → List (String × Json)
  | .nil => []
  | .cons name value rest => (name, Scalar.toTagged value) :: Row.toTaggedFields rest

end

mutual

/-- The scalar under a tag. -/
def Scalar.ofTagged? : Json → Option Scalar
  | .text "Undefined" => some .undefined
  | .text "Null" => some .null
  | .object [("Undefined", .null)] => some .undefined
  | .object [("Null", .null)] => some .null
  | .object [("Bool", .bool b)] => some (.bool b)
  | .object [("Int", .int i)] => Scalar.ofInt? i
  | .object [("Float", .int i)] => some (.float (Binary64.ofInt i))
  | .object [("Float", .float x)] => some (.float x)
  | .object [("Str", .text s)] => some (.text s)
  | .object [("Record", .object fields)] => (Row.ofTaggedFields? .nil fields).map .record
  | _ => none

/-- A row with more fields, whose values are tagged. -/
def Row.ofTaggedFields? (row : Row) : List (String × Json) → Option Row
  | [] => some row
  | (name, value) :: rest =>
      match Scalar.ofTagged? value with
      | none => none
      | some value => Row.ofTaggedFields? (row.put name value) rest

end

namespace ChangeKind

def name : ChangeKind → String
  | insert => "insert"
  | update => "update"
  | delete => "delete"

def ofName? : String → Option ChangeKind
  | "insert" => some insert
  | "update" => some update
  | "delete" => some delete
  | _ => none

end ChangeKind

namespace Change

def toTagged (change : Change) : Json :=
  .object [("key", .array (change.key.parts.map Scalar.toTagged)),
    ("kind", .text change.kind.name),
    ("value", .object change.row.toTaggedFields)]

/-- The change that a record of kind, key and value stands for. -/
def ofTagged? (json : Json) : Option Change := do
  let fields ← json.recordFields? ["kind", "key", "value"]
  let kind ← ChangeKind.ofName? (← (← fields.lookup "kind").choice?)
  match fields.lookup "key", fields.lookup "value" with
  | some (.array parts), some (.object values) =>
      return ⟨kind, ⟨← parts.mapM Scalar.ofTagged?⟩, ← Row.ofTaggedFields? .nil values⟩
  | _, _ => none

end Change

end LiveQuery
