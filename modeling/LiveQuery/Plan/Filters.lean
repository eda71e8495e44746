import LiveQuery.Plan

/-!
# Conditions on single sources

A condition that reads one source only can filter its rows before they are joined, if
no row left out could have shown up null extended: a part of `where` when all joins are
inner, and a part of a source's own join condition when its join is inner or left.
-/

namespace LiveQuery

namespace Body

/-- The parts of the join conditions and of `where` that read an alias. -/
def conditionsReading (body : Body) (name : String) : List Expr :=
  ((body.joinExprs ++ body.filter.toList).flatMap Expr.conjuncts).filter fun e =>
    e.aliases.contains name

/-- Whether an expression is computed from the rows of one source alone. -/
def readsOnly (name : String) (e : Expr) : Bool :=
  e.aliases = [name] && !e.containsAggregate && !e.containsSubquery

/-- The conditions that can filter the rows of a source. -/
def pushable (body : Body) (source : Source) : List Expr :=
  let ofFilter :=
    if body.innerOnly then body.filter.toList.flatMap Expr.conjuncts else []
  let ofJoin :=
    if source.join = some .inner || source.join = some .left then
      (body.joinCondition? source.name).toList.flatMap Expr.conjuncts
    else []
  (ofFilter ++ ofJoin).filter (readsOnly source.name)

end Body

end LiveQuery
