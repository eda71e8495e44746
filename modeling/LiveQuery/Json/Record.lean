import LiveQuery.Json

/-!
# Records in JSON

A record with fixed fields is read from an object, where other fields are let go by, or
from an array with the values of the fields in order. A choice among names is read from
the name, alone or as the only field of an object, with the value null.
-/

namespace LiveQuery.Json

/-- The fields that are given of a record with the named fields. -/
def recordFields? (names : List String) : Json → Option (List (String × Json))
  | .object fields => some (fields.filter fun field => names.contains field.1)
  | .array items => if items.length ≤ names.length then some (names.zip items) else none
  | _ => none

/-- The name of a choice. -/
def choice? : Json → Option String
  | .text name => some name
  | .object [(name, .null)] => some name
  | _ => none

/-- A field that holds a truth value, with a default where it is not given. -/
def flag? (fields : List (String × Json)) (name : String) (default : Bool) : Option Bool :=
  match fields.lookup name with
  | none => some default
  | some (.bool b) => some b
  | _ => none

end LiveQuery.Json
