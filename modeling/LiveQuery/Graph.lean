import LiveQuery.Graph.Order

/-!
# Dependency graphs

The graph of a query has a node for every object of the plan that the query is made
of. It tells in which order bodies are evaluated, and which of them a change reaches.
-/

namespace LiveQuery

/-- The object of a plan that a node stands for. -/
inductive Identity where
  | expr (id : ExprId)
  | body (id : BodyId)
  | source (id : SourceId)
deriving DecidableEq

/-- The nodes of a query, with the node of each object; the root is the selection of
the outermost body. -/
structure Graph where
  nodes : List Node
  index : List (Identity × NodeId)
  root : NodeId

namespace Graph

instance : Inhabited Graph := ⟨⟨[], [], 0⟩⟩

def size (g : Graph) : Nat :=
  g.nodes.length

/-- The node with a number. -/
def node (g : Graph) (k : NodeId) : Node :=
  g.nodes.getD k default

/-- The node of an object, if the query is made of it. -/
def nodeOf? (g : Graph) (id : Identity) : Option NodeId :=
  g.index.lookup id

/-- The nodes in an order where inputs come first. -/
def order (g : Graph) : List NodeId :=
  Node.inOrder g.nodes

/-- The nodes without inputs. -/
def topLevel (g : Graph) : List NodeId :=
  g.order.filter fun k => (g.node k).dependsOn.isEmpty

/-- The nodes that nothing depends on. -/
def outputs (g : Graph) : List NodeId :=
  g.order.filter fun k => (g.node k).dependedUpon.isEmpty

/-- The collection nodes with what they read. -/
def collections (g : Graph) : List (NodeId × Source × CollectionRef) :=
  g.order.filterMap fun k =>
    match (g.node k).kind with
    | .collection source ref _ => some (k, source, ref)
    | _ => none

/-- The selection nodes with their bodies, inner bodies first. -/
def selections (g : Graph) : List (NodeId × BodyId) :=
  g.order.filterMap fun k =>
    match (g.node k).kind with
    | .selection body => some (k, body)
    | _ => none

/-- The aggregates that are computed over the groups of a body. -/
def aggregatesOf (g : Graph) (body : BodyId) : List Expr :=
  g.order.filterMap fun k =>
    match (g.node k).kind with
    | .aggregate expr owner => if owner = body then some expr else none
    | _ => none

/-- The nodes to compute anew when some have changed, inputs first. -/
def affectedBy (g : Graph) (changed : List NodeId) : List NodeId :=
  let dirty := Node.reachUp g.nodes changed
  g.order.filter dirty.contains

/-- Whether a node is computed from another one, directly or not. -/
def isComputedFrom (g : Graph) (k input : NodeId) : Bool :=
  (Node.reachDown g.nodes (g.node k).dependsOn).contains input

end Graph

end LiveQuery
