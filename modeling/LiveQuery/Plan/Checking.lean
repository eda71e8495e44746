import LiveQuery.Plan
import LiveQuery.Plan.Error

/-!
# Valid queries

A query is valid when in each of its bodies `having` comes with groups, every function
gets a number of arguments it accepts, and aggregates stand in the selection and in
`having` only, none inside another. The bodies of its sources and subqueries are bodies
of the query; each is checked once, also when bodies refer to each other in a circle.
-/

namespace LiveQuery

namespace Body

/-- The expressions of a body with the clause that each stands in. -/
def clauses (body : Body) : List (Expr × Clause) :=
  body.selectionExprs.map (·, .select) ++ body.joinExprs.map (·, .join)
    ++ body.filter.toList.map (·, .filter) ++ body.groupExprs.map (·, .groupBy)
    ++ body.having.toList.map (·, .having) ++ body.orderTerms.map fun t => (t.expr, .orderBy)

/-- The bodies that the sources of a body read. -/
def queriedBodies (body : Body) : List BodyId :=
  body.sources.filterMap fun source =>
    match source.origin with
    | .query sub => some sub
    | .collection _ => none

end Body

/-- Whether an aggregate may stand in a clause. -/
def Clause.allowsAggregates : Clause → Bool
  | select => true
  | having => true
  | _ => false

/-- The bodies that have been checked, or the first error. -/
abbrev Checked := Except BuildError (List BodyId)

section

variable (checkBody : BodyId → List BodyId → Checked) (clause : Clause)

mutual

/-- Checks an expression, given whether it stands inside an aggregate. -/
def checkExpr (within : Bool) (seen : List BodyId) : Expr → Checked
  | .literal .. => .ok seen
  | .reference .. => .ok seen
  | .subquery _ body => checkBody body seen
  | .call _ function args =>
      if function.arity.accepts args.length then checkExprs within seen args
      else .error (.arity function.name function.arity.toText args.length)
  | .aggregate id function args =>
      if within then .error (.nestedAggregate (Expr.aggregate id function args).describe)
      else if !clause.allowsAggregates then
        .error (.aggregatePlacement (Expr.aggregate id function args).describe clause)
      else if function.arity.accepts args.length then checkExprs true seen args
      else .error (.arity function.name function.arity.toText args.length)

def checkExprs (within : Bool) (seen : List BodyId) : List Expr → Checked
  | [] => .ok seen
  | e :: rest =>
      match checkExpr within seen e with
      | .error error => .error error
      | .ok seen => checkExprs within seen rest

end

end

/-- Checks the expressions of the clauses of a body in order. -/
def checkClauses (checkBody : BodyId → List BodyId → Checked) (seen : List BodyId) :
    List (Expr × Clause) → Checked
  | [] => .ok seen
  | (e, clause) :: rest =>
      match checkExpr checkBody clause false seen e with
      | .error error => .error error
      | .ok seen => checkClauses checkBody seen rest

def checkBodies (checkBody : BodyId → List BodyId → Checked) (seen : List BodyId) :
    List BodyId → Checked
  | [] => .ok seen
  | body :: rest =>
      match checkBody body seen with
      | .error error => .error error
      | .ok seen => checkBodies checkBody seen rest

namespace Plan

/-- Checks a body that has not been checked, and the bodies below it to a given depth. -/
def checkBody (plan : Plan) : Nat → BodyId → List BodyId → Checked
  | 0, _, seen => .ok seen
  | depth + 1, id, seen =>
      if seen.contains id then .ok seen
      else
        let body := plan.body id
        if body.having.isSome && body.groupBy.isNone then .error .havingWithoutGroups
        else
          match checkClauses (plan.checkBody depth) (id :: seen) body.clauses with
          | .error error => .error error
          | .ok seen => checkBodies (plan.checkBody depth) seen body.queriedBodies

/-- Checks a query with all bodies it is made of. -/
def validate (plan : Plan) (query : BodyId) : Except BuildError Unit :=
  match plan.checkBody plan.depth query [] with
  | .error error => .error error
  | .ok _ => .ok ()

end Plan

end LiveQuery
