import LiveQuery.Graph.Node

/-!
# Order and reachability

Nodes are ordered so that each comes after all its inputs: the nodes without inputs
are ready at first, and listing a node counts down, for each edge, the inputs its
dependents still wait for. Nodes on a cycle never get ready and are left out.
-/

namespace LiveQuery

namespace Node

/-- Counts down one input of each dependent, and gives those that wait no longer. -/
def release (waiting : List Nat) : List NodeId → List Nat × List NodeId
  | [] => (waiting, [])
  | k :: rest =>
      let waiting := waiting.modify k (· - 1)
      let (after, ready) := release waiting rest
      if waiting[k]? = some 0 then (after, k :: ready) else (after, ready)

/-- Lists ready nodes, first come first served, up to a given number. -/
def listReady (nodes : List Node) : Nat → List Nat → List NodeId → List NodeId
  | 0, _, _ => []
  | _, _, [] => []
  | n + 1, waiting, k :: ready =>
      let (waiting, freed) := release waiting (dependentsIn nodes k)
      k :: listReady nodes n waiting (ready ++ freed)

/-- The nodes in an order where inputs come first. -/
def inOrder (nodes : List Node) : List NodeId :=
  let free := (List.range nodes.length).filter fun k => (inputsIn nodes k).isEmpty
  listReady nodes nodes.length (nodes.map (·.dependsOn.length)) free

/-- Follows edges from a queue of nodes, for a given number of steps, and adds the
nodes it meets to those seen. -/
def reach (next : NodeId → List NodeId) : Nat → List NodeId → List NodeId → List NodeId
  | 0, seen, _ => seen
  | _, seen, [] => seen
  | n + 1, seen, k :: queue =>
      if seen.contains k then reach next n seen queue
      else reach next n (k :: seen) (queue ++ next k)

/-- The given nodes and all that depend on one of them. -/
def reachUp (nodes : List Node) (start : List NodeId) : List NodeId :=
  let edges := nodes.foldl (fun n node => n + node.dependedUpon.length) 0
  reach (dependentsIn nodes) (start.length + edges) [] start

/-- The given nodes and all that one of them depends on. -/
def reachDown (nodes : List Node) (start : List NodeId) : List NodeId :=
  let edges := nodes.foldl (fun n node => n + node.dependsOn.length) 0
  reach (inputsIn nodes) (start.length + edges) [] start

end Node

end LiveQuery
