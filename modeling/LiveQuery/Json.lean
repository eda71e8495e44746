import LiveQuery.Scalar.Order

/-!
# Data in JSON

A JSON number written without a fraction or an exponent is an integer here, any other
one a float. `Json.ofScalar` and `Scalar.ofJson` carry values over: an array becomes a
row of its positions, and what JSON cannot say — missing values, infinities, a
not-a-number — becomes null.
-/

namespace LiveQuery

/-- A JSON value. -/
inductive Json where
  | null
  | bool (value : Bool)
  | int (value : Int)
  | float (value : Binary64)
  | text (value : String)
  | array (items : List Json)
  | object (fields : List (String × Json))

namespace Json

instance : Inhabited Json := ⟨.null⟩

/-- The first field of an object with the given name. -/
def get? : Json → String → Option Json
  | object fields, name => fields.lookup name
  | _, _ => none

def asText? : Json → Option String
  | text s => some s
  | _ => none

def asNat? : Json → Option Nat
  | int (.ofNat n) => some n
  | _ => none

def asArray? : Json → Option (List Json)
  | array items => some items
  | _ => none

/-- A text field of an object. -/
def getText? (json : Json) (name : String) : Option String :=
  (json.get? name).bind asText?

/-- An array field of an object. -/
def getArray? (json : Json) (name : String) : Option (List Json) :=
  (json.get? name).bind asArray?

/-- Sets a field in a list of fields that is in order of the names. -/
def setField (name : String) (value : Json) : List (String × Json) → List (String × Json)
  | [] => [(name, value)]
  | (n, v) :: rest =>
      match compare name n with
      | .lt => (name, value) :: (n, v) :: rest
      | .eq => (name, value) :: rest
      | .gt => (n, v) :: setField name value rest

/-- An object with its fields in order of the names; the last value given to a name holds. -/
def ofFields (fields : List (String × Json)) : Json :=
  .object (fields.foldl (fun fields field => setField field.1 field.2 fields) [])

end Json

mutual

/-- The value that a JSON value stands for. -/
def Scalar.ofJson : Json → Scalar
  | .null => .null
  | .bool b => .bool b
  | .int i => .ofInt i
  | .float x => .float x
  | .text s => .text s
  | .array items => .record (Row.ofJsonItems 0 .nil items)
  | .object fields => .record (Row.ofJsonFields .nil fields)

/-- Adds items to a row, named by their positions from `i` on. -/
def Row.ofJsonItems (i : Nat) (row : Row) : List Json → Row
  | [] => row
  | item :: rest => Row.ofJsonItems (i + 1) (row.insert (toString i) (Scalar.ofJson item)) rest

/-- Adds fields to a row. -/
def Row.ofJsonFields (row : Row) : List (String × Json) → Row
  | [] => row
  | (name, value) :: rest => Row.ofJsonFields (row.insert name (Scalar.ofJson value)) rest

end

mutual

/-- A value in JSON. -/
def Json.ofScalar : Scalar → Json
  | .undefined => .null
  | .null => .null
  | .bool b => .bool b
  | .int i => .int i.toInt
  | .float x => if x.isFinite then .float x else .null
  | .text s => .text s
  | .record row => .object (Json.fieldsOfRow row)

/-- The fields of a row in JSON. -/
def Json.fieldsOfRow : Row → List (String × Json)
  | .nil => []
  | .cons name value rest => (name, Json.ofScalar value) :: Json.fieldsOfRow rest

end

/-- A row in JSON. -/
def Json.ofRow (row : Row) : Json :=
  .object (Json.fieldsOfRow row)

/-- The row that a JSON array or object stands for. -/
def Row.ofJson? (json : Json) : Option Row :=
  (Scalar.ofJson json).asRecord?

end LiveQuery
