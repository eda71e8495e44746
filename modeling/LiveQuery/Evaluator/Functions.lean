import LiveQuery.Function
import LiveQuery.Scalar.Text
import LiveQuery.Text.Case

/-!
# Functions of values

Arithmetic on integers is exact where 64 bits hold the result and is done on floats
otherwise; dividing by zero gives null. Comparisons put numbers in the total order of
floats. Conditions on missing values are false.
-/

namespace LiveQuery

namespace Function

/-- The exact result of arithmetic on integers, if it is one. -/
def onInts (function : Function) (x y : Int) : Option Scalar :=
  match function with
  | add => Scalar.ofInt? (x + y)
  | sub => Scalar.ofInt? (x - y)
  | mul => Scalar.ofInt? (x * y)
  | div =>
      if y = 0 then some .null
      else if x.tmod y = 0 then Scalar.ofInt? (x.tdiv y)
      else none
  | _ => none

/-- Arithmetic in double precision. -/
def onFloats (function : Function) (x y : Binary64) : Scalar :=
  match function with
  | add => .float (x + y)
  | sub => .float (x - y)
  | mul => .float (x * y)
  | _ => if y.isZero then .null else .float (x / y)

/-- The result of arithmetic, none if an operand is not a number. -/
def arithmetic (function : Function) (a b : Scalar) : Option Scalar :=
  let exact :=
    match a, b with
    | .int x, .int y => onInts function x.toInt y.toInt
    | _, _ => none
  match exact with
  | some result => some result
  | none =>
      match a.asFloat?, b.asFloat? with
      | some x, some y => some (onFloats function x y)
      | _, _ => none

/-- How two values compare, if values of their kinds do. -/
def comparison (a b : Scalar) : Option Ordering :=
  match a, b with
  | .text s, .text t => some (compare s t)
  | .bool p, .bool q => some (compare p q)
  | _, _ =>
      match a.asFloat?, b.asFloat? with
      | some x, some y => some (compare x y)
      | _, _ => none

/-- Whether a comparing function holds for an ordering. -/
def holdsFor (function : Function) (o : Ordering) : Bool :=
  match function with
  | lt => o.isLT
  | lte => o.isLE
  | gt => o.isGT
  | _ => o.isGE

/-- A comparing function of two values; with a missing value it is false. -/
def compared (function : Function) (a b : Scalar) : Option Scalar :=
  if a.isNullish || b.isNullish then some (.bool false)
  else (comparison a b).map fun o => .bool (function.holdsFor o)

/-- A function of a text; a missing value stays missing. -/
def onText (f : String → Scalar) : Scalar → Option Scalar
  | .text s => some (f s)
  | a => if a.isNullish then some .undefined else none

/-- The number of characters of a text or of fields of a row. -/
def lengthOf : Scalar → Option Scalar
  | .record row => some (.int (Int64.ofNat row.size))
  | a => onText (fun s => .int (Int64.ofNat s.length)) a

/-- The texts of values, one after another, without the missing ones. -/
def concatenated (values : List Scalar) : Scalar :=
  .text (String.join ((values.filter fun v => !v.isNullish).map Scalar.toText))

/-- A function of evaluated arguments, none if they are not of its kinds. Conjunctions,
disjunctions and `coalesce` do not evaluate all their arguments and are not among them. -/
def apply (function : Function) (values : List Scalar) : Option Scalar :=
  match function, values with
  | concat, values => some (concatenated values)
  | eq, [a, b] => some (.bool (a.agreesWith b))
  | neq, [a, b] => some (.bool (!a.agreesWith b))
  | lt, [a, b] => compared lt a b
  | lte, [a, b] => compared lte a b
  | gt, [a, b] => compared gt a b
  | gte, [a, b] => compared gte a b
  | not, [a] => some (.bool (!a.truthy))
  | isNull, [a] => some (.bool a.isNullish)
  | length, [a] => lengthOf a
  | upper, [a] => onText (fun s => .text (Text.upper s)) a
  | lower, [a] => onText (fun s => .text (Text.lower s)) a
  | add, [a, b] => if a.isNullish || b.isNullish then some .null else arithmetic add a b
  | sub, [a, b] => if a.isNullish || b.isNullish then some .null else arithmetic sub a b
  | mul, [a, b] => if a.isNullish || b.isNullish then some .null else arithmetic mul a b
  | div, [a, b] => if a.isNullish || b.isNullish then some .null else arithmetic div a b
  | _, _ => none

end Function

end LiveQuery
