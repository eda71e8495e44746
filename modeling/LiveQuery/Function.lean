/-!
# Functions of the query language

Scalar functions work on values, aggregates on the tuples of a group. Each has a name
and accepts certain numbers of arguments.
-/

namespace LiveQuery

/-- The numbers of arguments that a function accepts. -/
inductive Arity where
  | exactly (n : Nat)
  | atLeast (n : Nat)
  | between (low high : Nat)
deriving DecidableEq

namespace Arity

def accepts : Arity → Nat → Bool
  | exactly m, n => n = m
  | atLeast m, n => m ≤ n
  | between low high, n => low ≤ n && n ≤ high

def toText : Arity → String
  | exactly n => toString n
  | atLeast n => "at least " ++ toString n
  | between low high => toString low ++ " to " ++ toString high

end Arity

/-- A scalar function. -/
inductive Function where
  | eq | neq | lt | lte | gt | gte
  | and | or | not
  | length | upper | lower
  | add | sub | mul | div
  | concat | coalesce | isNull
deriving DecidableEq

namespace Function

def all : List Function :=
  [eq, neq, lt, lte, gt, gte, and, or, not, length, upper, lower, add, sub, mul, div,
    concat, coalesce, isNull]

def name : Function → String
  | eq => "eq"
  | neq => "neq"
  | lt => "lt"
  | lte => "lte"
  | gt => "gt"
  | gte => "gte"
  | and => "and"
  | or => "or"
  | not => "not"
  | length => "length"
  | upper => "upper"
  | lower => "lower"
  | add => "add"
  | sub => "sub"
  | mul => "mul"
  | div => "div"
  | concat => "concat"
  | coalesce => "coalesce"
  | isNull => "isNull"

def arity : Function → Arity
  | and => .atLeast 1
  | or => .atLeast 1
  | concat => .atLeast 1
  | coalesce => .atLeast 1
  | not => .exactly 1
  | length => .exactly 1
  | upper => .exactly 1
  | lower => .exactly 1
  | isNull => .exactly 1
  | _ => .exactly 2

/-- The function with a given name. -/
def ofName? (name : String) : Option Function :=
  all.find? fun f => f.name = name

end Function

/-- An aggregate function. -/
inductive Aggregate where
  | count | sum | min | max | avg
deriving DecidableEq

namespace Aggregate

def all : List Aggregate :=
  [count, sum, min, max, avg]

def name : Aggregate → String
  | count => "count"
  | sum => "sum"
  | min => "min"
  | max => "max"
  | avg => "avg"

def arity : Aggregate → Arity
  | count => .between 0 1
  | _ => .exactly 1

/-- The aggregate with a given name. -/
def ofName? (name : String) : Option Aggregate :=
  all.find? fun f => f.name = name

end Aggregate

end LiveQuery
