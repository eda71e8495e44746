/-!
# Why a query is refused

All these errors are found while a query is built, before any of it is evaluated.
-/

namespace LiveQuery

/-- The part of a body that an expression stands in. -/
inductive Clause where
  | select
  | join
  | filter
  | groupBy
  | having
  | orderBy
deriving DecidableEq

def Clause.text : Clause → String
  | select => "select"
  | join => "join condition"
  | filter => "where"
  | groupBy => "groupBy"
  | having => "having"
  | orderBy => "orderBy"

inductive BuildError where
  | aggregatePlacement (aggregate : String) (clause : Clause)
  | nestedAggregate (aggregate : String)
  | unresolvedAlias (path : String)
  | laterAlias (name later : String)
  | cyclicDefinition (through : String)
  | duplicateAlias (name : String)
  | unknownAlias (name : String)
  | havingWithoutGroups
  | missingSelection
  | selectionRedefined
  | firstSourceRedefined
  | joinWithoutFirstSource
  | unknownFunction (name : String)
  | arity (function expected : String) (found : Nat)
deriving DecidableEq

def BuildError.message : BuildError → String
  | aggregatePlacement aggregate clause =>
      "aggregate " ++ aggregate ++ " is not allowed in " ++ clause.text
  | nestedAggregate aggregate =>
      "aggregate " ++ aggregate ++ " is nested inside another aggregate"
  | unresolvedAlias path => "reference to " ++ path ++ " does not resolve to any source in scope"
  | laterAlias name later =>
      "join condition of " ++ name ++ " refers to " ++ later ++ ", which is joined after it"
  | cyclicDefinition through => "query refers to itself through " ++ through
  | duplicateAlias name => "alias " ++ name ++ " is bound twice in the same query"
  | unknownAlias name => "alias " ++ name ++ " is not bound in this query"
  | havingWithoutGroups => "having used without groupBy"
  | missingSelection => "query has no select"
  | selectionRedefined => "select used twice in the same query"
  | firstSourceRedefined => "from used twice in the same query"
  | joinWithoutFirstSource => "join used before from"
  | unknownFunction name => "unknown function " ++ name
  | arity function expected found =>
      function ++ " takes " ++ expected ++ " arguments, but was given " ++ toString found

end LiveQuery
