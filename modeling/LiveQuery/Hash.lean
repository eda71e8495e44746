import LiveQuery.Key

/-!
# What is hashed

Hash tables of scalars, rows and keys feed a hasher with the words below. A scalar
gives its kind before its content, a row its number of fields before the fields, and
a key its number of parts before the parts.
-/

namespace LiveQuery

/-- One write to a hasher. -/
inductive HashWord where
  | kind (index : Nat)
  | flag (value : Bool)
  | int (value : Int64)
  | bits (value : UInt64)
  | text (value : String)
  | length (value : Nat)
deriving DecidableEq

namespace Scalar

/-- The number of a value's kind; here integers and floats are two kinds. -/
def kindIndex : Scalar → Nat
  | undefined => 0
  | null => 1
  | bool _ => 2
  | int _ => 3
  | float _ => 4
  | text _ => 5
  | record _ => 6

end Scalar

mutual

/-- What a hasher is given for the content of a scalar. -/
def Scalar.hashContent : Scalar → List HashWord
  | .undefined => []
  | .null => []
  | .bool b => [.flag b]
  | .int i => [.int i]
  | .float x => [.bits x.bits]
  | .text s => [.text s]
  | .record row => .length row.size :: row.hashFields

/-- What a hasher is given for the fields of a row, in their order. -/
def Row.hashFields : Row → List HashWord
  | .nil => []
  | .cons name value rest =>
      .text name :: .kind value.kindIndex :: (value.hashContent ++ rest.hashFields)

end

/-- What a hasher is given for a scalar. -/
def Scalar.hashInput (value : Scalar) : List HashWord :=
  .kind value.kindIndex :: value.hashContent

/-- What a hasher is given for a row. -/
def Row.hashInput (row : Row) : List HashWord :=
  .length row.size :: row.hashFields

/-- What a hasher is given for a key. -/
def Key.hashInput (key : Key) : List HashWord :=
  .length key.parts.length :: key.parts.flatMap Scalar.hashInput

@[simp] theorem Row.hashFields_cons (name : String) (value : Scalar) (rest : Row) :
    (Row.cons name value rest).hashFields
      = .text name :: (value.hashInput ++ rest.hashFields) := rfl

end LiveQuery
