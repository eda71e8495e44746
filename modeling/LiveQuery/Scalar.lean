import LiveQuery.Binary64

/-!
# Scalars and rows

A row gives names to scalars, in increasing order of the names, and a scalar may
itself be a row. `undefined` is a missing value: the field a row does not have, or
any field of a source that is not bound. `null` is a value that says "none".

**Rows.** `Row.insert` and `Row.erase` keep the names increasing. Inserting
`undefined` takes the field out, so a row built by `insert` holds no missing values.
-/

namespace LiveQuery

mutual

/-- A field's value. -/
inductive Scalar where
  | undefined
  | null
  | bool (value : Bool)
  | int (value : Int64)
  | float (value : Binary64)
  | text (value : String)
  | record (row : Row)

/-- Named fields, the first one and the rest. -/
inductive Row where
  | nil
  | cons (name : String) (value : Scalar) (rest : Row)

end

deriving instance DecidableEq for Scalar, Row

instance : Inhabited Scalar := ⟨.undefined⟩

instance : Inhabited Row := ⟨.nil⟩

namespace Scalar

/-- The integer as an `int` where 64 bits hold it. -/
def ofInt? (i : Int) : Option Scalar :=
  if -0x8000000000000000 ≤ i ∧ i < 0x8000000000000000 then some (.int (Int64.ofInt i)) else none

/-- The integer as an `int` where 64 bits hold it, and rounded to a float otherwise. -/
def ofInt (i : Int) : Scalar :=
  (ofInt? i).getD (.float (Binary64.ofInt i))

/-- Whether a value counts as true where a condition is asked for. -/
def truthy : Scalar → Bool
  | undefined => false
  | null => false
  | bool b => b
  | int i => i ≠ 0
  | float x => !x.isZero && !x.isNaN
  | text s => !s.isEmpty
  | record _ => true

/-- Missing, or said to be none. -/
def isNullish : Scalar → Bool
  | undefined => true
  | null => true
  | _ => false

def isNumber : Scalar → Bool
  | int _ => true
  | float _ => true
  | _ => false

/-- The value of a number in double precision. -/
def asFloat? : Scalar → Option Binary64
  | int i => some (Binary64.ofInt i.toInt)
  | float x => some x
  | _ => none

def asText? : Scalar → Option String
  | text s => some s
  | _ => none

def asRecord? : Scalar → Option Row
  | record r => some r
  | _ => none

/-- The word for the kind of a value. -/
def kind : Scalar → String
  | undefined => "undefined"
  | null => "null"
  | bool _ => "bool"
  | int _ => "int"
  | float _ => "float"
  | text _ => "string"
  | record _ => "record"

/-- Equality as conditions see it: an integer and a float agree when they agree in
double precision, all other values when they are the same. -/
def agreesWith : Scalar → Scalar → Bool
  | int i, float x => (Binary64.ofInt i.toInt).sameValue x
  | float x, int i => (Binary64.ofInt i.toInt).sameValue x
  | a, b => a == b

end Scalar

namespace Row

/-- The fields in order. -/
def toList : Row → List (String × Scalar)
  | nil => []
  | cons name value rest => (name, value) :: rest.toList

def size : Row → Nat
  | nil => 0
  | cons _ _ rest => rest.size + 1

def isEmpty : Row → Bool
  | nil => true
  | cons .. => false

/-- The value of a field, if the row has it. -/
def get? : Row → String → Option Scalar
  | nil, _ => none
  | cons name value rest, field => if name = field then some value else rest.get? field

/-- Takes a field out. -/
def erase : Row → String → Row
  | nil, _ => nil
  | cons name value rest, field =>
      if name = field then rest else cons name value (rest.erase field)

/-- Sets a field to any value, in its place among the names. -/
def put : Row → String → Scalar → Row
  | nil, field, value => cons field value nil
  | cons name old rest, field, value =>
      match compare field name with
      | .lt => cons field value (cons name old rest)
      | .eq => cons field value rest
      | .gt => cons name old (rest.put field value)

/-- Sets a field, or takes it out when the value is missing. -/
def insert (row : Row) (field : String) : Scalar → Row
  | .undefined => row.erase field
  | value => row.put field value

/-- Inserts the listed fields one after another. -/
def insertAll (row : Row) (fields : List (String × Scalar)) : Row :=
  fields.foldl (fun row field => row.insert field.1 field.2) row

/-- Copies every field of another row into this one. -/
def extend (row other : Row) : Row :=
  row.insertAll other.toList

def ofList (fields : List (String × Scalar)) : Row :=
  nil.insertAll fields

/-- A row of values named by their positions. -/
def ofPositions (values : List Scalar) : Row :=
  ofList (values.mapIdx fun i value => (toString i, value))

def values (row : Row) : List Scalar :=
  row.toList.map Prod.snd

@[simp] theorem toList_nil : nil.toList = [] := rfl

@[simp] theorem toList_cons (name : String) (value : Scalar) (rest : Row) :
    (cons name value rest).toList = (name, value) :: rest.toList := rfl

@[simp] theorem length_toList (row : Row) : row.toList.length = row.size :=
  match row with
  | nil => rfl
  | cons _ _ rest => by simp [size, length_toList rest]

end Row

end LiveQuery
