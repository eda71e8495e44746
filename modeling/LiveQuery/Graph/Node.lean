import LiveQuery.Plan

/-!
# Nodes of dependency graphs

Each node stands for one object of a plan: a collection read through a source, an
expression, or the selection of a body. It lists the nodes it is computed from and,
the other way round, the nodes computed from it; an edge is listed once per use.
-/

namespace LiveQuery

/-- The number of a node, in order of creation. -/
abbrev NodeId := Nat

/-- What a node stands for. A collection comes with the conditions that read it, an
aggregate with the body whose groups it is computed over. -/
inductive NodeKind where
  | collection (source : Source) (ref : CollectionRef) (conditions : List Expr)
  | expression (expr : Expr)
  | aggregate (expr : Expr) (body : BodyId)
  | selection (body : BodyId)

/-- A node as it is named in errors. -/
def NodeKind.describe : NodeKind → String
  | collection source ref _ => ref.name ++ " as " ++ source.name
  | expression expr => expr.describe
  | aggregate expr _ => expr.describe
  | selection body => "select#" ++ toString body

/-- A node with its inputs and its dependents. -/
structure Node where
  kind : NodeKind
  dependsOn : List NodeId := []
  dependedUpon : List NodeId := []

namespace Node

instance : Inhabited Node := ⟨{ kind := .selection 0 }⟩

/-- The dependents of the node with a number. -/
def dependentsIn (nodes : List Node) (k : NodeId) : List NodeId :=
  (nodes[k]?.map dependedUpon).getD []

/-- The inputs of the node with a number. -/
def inputsIn (nodes : List Node) (k : NodeId) : List NodeId :=
  (nodes[k]?.map dependsOn).getD []

end Node

end LiveQuery
