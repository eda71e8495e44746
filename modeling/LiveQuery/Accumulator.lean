import LiveQuery.Function
import LiveQuery.OrdMap
import LiveQuery.Scalar.Order

/-!
# Accumulators

An accumulator holds what an aggregate needs of the values of a group, so that values
can be added and taken out one at a time. Totals keep the exact sum of the integers and
the floats themselves, which are added up in order whenever the total is asked for: a
total depends on the values only, not on the order in which they came and went.
Missing values are ignored, totals ignore all that are not numbers.
-/

namespace LiveQuery

/-- Values with their multiplicities, which are positive. -/
abbrev Bag (κ : Type) [Ord κ] := OrdMap κ Nat

namespace Bag

variable {κ : Type} [Ord κ] [Std.TransOrd κ]

/-- Adds a value once. -/
def add (bag : Bag κ) (value : κ) : Bag κ :=
  bag.insert value ((bag.get? value).getD 0 + 1)

/-- Takes a value out once, if it is there. -/
def takeOut? (bag : Bag κ) (value : κ) : Option (Bag κ) :=
  match bag.get? value with
  | none => none
  | some n => if n ≤ 1 then some (bag.erase value) else some (bag.insert value (n - 1))

end Bag

/-- The numbers of a group: the sum of the integers, the floats, and how many there are
of floats and of both. -/
structure Total where
  ints : Int := 0
  floats : Bag Binary64 := OrdMap.empty
  floatCount : Nat := 0
  count : Nat := 0

namespace Total

def add (total : Total) : Scalar → Total
  | .int i => { total with ints := total.ints + i.toInt, count := total.count + 1 }
  | .float x =>
      { total with
        floats := total.floats.add x
        floatCount := total.floatCount + 1
        count := total.count + 1 }
  | _ => total

/-- Takes a number out. Which integers there are is not kept, so any is taken out as
long as one is left. -/
def takeOut? (total : Total) : Scalar → Option Total
  | .int i =>
      if total.count = total.floatCount then none
      else some { total with ints := total.ints - i.toInt, count := total.count - 1 }
  | .float x =>
      (total.floats.takeOut? x).map fun floats =>
        { total with
          floats
          floatCount := total.floatCount - 1
          count := total.count - 1 }
  | _ => some total

/-- The sum in double precision: the integers, then the floats in order. -/
def toFloat (total : Total) : Binary64 :=
  total.floats.entries.foldl
    (fun sum entry => entry.2.fold (fun _ _ sum => sum + entry.1) sum)
    (Binary64.ofInt total.ints)

/-- The sum, an integer where 64 bits hold it and there are no floats. -/
def sum (total : Total) : Scalar :=
  if total.count = 0 then .null
  else if total.floatCount = 0 then .ofInt total.ints
  else .float total.toFloat

def average (total : Total) : Scalar :=
  if total.count = 0 then .null else .float (total.toFloat / Binary64.ofNat total.count)

end Total

/-- The state of an aggregate: a count of tuples or of present values, a total, or the
values to find the least or the greatest of. -/
inductive Accumulator where
  | tuples (n : Nat)
  | present (n : Nat)
  | sum (total : Total)
  | average (total : Total)
  | least (values : Bag Scalar)
  | greatest (values : Bag Scalar)

namespace Accumulator

/-- The state of an aggregate of no values; counting without an argument counts tuples. -/
def start (function : Aggregate) (arguments : Nat) : Accumulator :=
  match function with
  | .count => if arguments = 0 then tuples 0 else present 0
  | .sum => sum {}
  | .avg => average {}
  | .min => least OrdMap.empty
  | .max => greatest OrdMap.empty

/-- Adds a value. -/
def add (acc : Accumulator) (value : Scalar) : Accumulator :=
  match acc with
  | tuples n => tuples (n + 1)
  | present n => if value.isNullish then present n else present (n + 1)
  | sum total => sum (total.add value)
  | average total => average (total.add value)
  | least values => if value.isNullish then least values else least (values.add value)
  | greatest values =>
      if value.isNullish then greatest values else greatest (values.add value)

/-- Takes a value out, none if it was not added. -/
def takeOut? (acc : Accumulator) (value : Scalar) : Option Accumulator :=
  match acc with
  | tuples n => if n = 0 then none else some (tuples (n - 1))
  | present n =>
      if value.isNullish then some (present n)
      else if n = 0 then none
      else some (present (n - 1))
  | sum total => (total.takeOut? value).map sum
  | average total => (total.takeOut? value).map average
  | least values =>
      if value.isNullish then some (least values) else (values.takeOut? value).map least
  | greatest values =>
      if value.isNullish then some (greatest values)
      else (values.takeOut? value).map greatest

/-- The value of the aggregate. -/
def value : Accumulator → Scalar
  | tuples n => .int (Int64.ofNat n)
  | present n => .int (Int64.ofNat n)
  | sum total => total.sum
  | average total => total.average
  | least values => (values.first?.map Prod.fst).getD .null
  | greatest values => (values.last?.map Prod.fst).getD .null

end Accumulator

end LiveQuery
