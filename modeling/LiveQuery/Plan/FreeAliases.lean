import LiveQuery.Plan

/-!
# Correlated bodies

A body is correlated when it reads an alias that it does not bind, which an enclosing
body has to bind then. Such a body has no result of its own: it is evaluated for each
row of the enclosing body.
-/

namespace LiveQuery

/-- The aliases that an expression reads, given those that a body reads from outside. -/
def Expr.readAliases (free : BodyId → List String) (e : Expr) : List String :=
  e.subterms.flatMap fun
    | .reference _ path => [path.base]
    | .subquery _ body => free body
    | _ => []

/-- The aliases that the sources of a body read. -/
def Body.sourceAliases (free : BodyId → List String) (body : Body) : List String :=
  body.sources.flatMap fun source =>
    match source.origin with
    | .query sub => free sub
    | .collection _ => []

namespace Plan

/-- The aliases that a body reads but does not bind, each once, down to a given depth. -/
def freeWithin (plan : Plan) : Nat → BodyId → List String
  | 0, _ => []
  | depth + 1, id =>
      let body := plan.body id
      let read := body.expressions.flatMap (Expr.readAliases (plan.freeWithin depth))
        ++ body.sourceAliases (plan.freeWithin depth)
      (read.filter fun name => !body.binds name).eraseDups

/-- The aliases that a body reads but does not bind. -/
def freeAliases (plan : Plan) (body : BodyId) : List String :=
  plan.freeWithin plan.depth body

/-- The aliases that an expression reads, those of its subqueries included. -/
def exprAliases (plan : Plan) (e : Expr) : List String :=
  (e.readAliases plan.freeAliases).eraseDups

def isCorrelated (plan : Plan) (body : BodyId) : Bool :=
  !(plan.freeAliases body).isEmpty

/-- Whether a source is evaluated for each combination of the sources before it. -/
def isLateral (plan : Plan) (source : Source) : Bool :=
  match source.origin with
  | .query sub => plan.isCorrelated sub
  | .collection _ => false

/-- Whether a body evaluates others row by row: in subqueries, or as lateral sources. -/
def evaluatesOthers (plan : Plan) (id : BodyId) : Bool :=
  (plan.body id).expressions.any Expr.containsSubquery
    || (plan.body id).sources.any plan.isLateral

end Plan

end LiveQuery
