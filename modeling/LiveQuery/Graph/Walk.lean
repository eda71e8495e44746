import LiveQuery.Graph
import LiveQuery.Plan.Draft
import LiveQuery.Plan.Checking
import LiveQuery.Plan.FreeAliases
import LiveQuery.Plan.Filters

/-!
# Building dependency graphs

The bodies of a query are walked from the outermost one. An object gets its node when
it is first met, and an edge whenever it is used. An object that is met again while it
is being walked would depend on itself, which is an error. The alias of a reference is
looked up in the bodies that enclose its first use, the innermost first. A join
condition reads its own source, the sources before it and enclosing bodies only.
-/

namespace LiveQuery

/-- Where the walk is: the objects being walked and the bodies around, innermost first. -/
structure Walk where
  active : List Identity := []
  scopes : List BodyId := []

/-- The walk inside one more object. -/
def Walk.inside (walk : Walk) (id : Identity) : Walk :=
  { walk with active := id :: walk.active }

/-- The walk inside one more body. -/
def Walk.enter (walk : Walk) (body : BodyId) : Walk :=
  { active := .body body :: walk.active, scopes := body :: walk.scopes }

/-- The nodes made so far. -/
structure Sketch where
  nodes : List Node := []
  index : List (Identity × NodeId) := []

namespace Sketch

/-- Adds an edge to a dependent, if there is one. -/
def link (s : Sketch) (node : NodeId) : Option NodeId → Sketch
  | none => s
  | some dependent =>
      let withDependent := s.nodes.modify node fun n =>
        { n with dependedUpon := n.dependedUpon ++ [dependent] }
      let withInput := withDependent.modify dependent fun n =>
        { n with dependsOn := n.dependsOn ++ [node] }
      { s with nodes := withInput }

/-- Notes the node of an object. -/
def register (s : Sketch) (id : Identity) (node : NodeId) : Sketch :=
  { s with index := (id, node) :: s.index }

/-- Adds a node for an object. -/
def create (s : Sketch) (id : Identity) (kind : NodeKind) (dependent : Option NodeId) :
    Sketch :=
  let added : Sketch := { s with nodes := s.nodes ++ [{ kind }] }
  (added.register id s.nodes.length).link s.nodes.length dependent

end Sketch

/-- A step of the walk: it adds to a sketch, or fails. -/
abbrev Sketching := StateT Sketch (Except BuildError)

/-- The node of an object that has been met, after linking it. -/
def known (walk : Walk) (id : Identity) (dependent : Option NodeId) :
    Sketching (Option NodeId) := do
  let s ← get
  match s.index.lookup id with
  | none => return none
  | some node =>
      if walk.active.contains id then
        throw (.cyclicDefinition (s.nodes.getD node default).kind.describe)
      else
        set (s.link node dependent)
        return some node

/-- Makes the node of an object that has not been met. -/
def create (id : Identity) (kind : NodeKind) (dependent : Option NodeId) :
    Sketching NodeId := do
  let s ← get
  set (s.create id kind dependent)
  return s.nodes.length

/-- The source that an alias stands for, with the body that binds it. -/
def Plan.resolve? (plan : Plan) (scopes : List BodyId) (name : String) :
    Option (BodyId × Source) :=
  scopes.findSome? fun body => ((plan.body body).source? name).map (body, ·)

/-- The alias joined after a source that the condition of its join reads. -/
def Plan.laterAlias? (plan : Plan) (body : Body) (name : String) (cond : Expr) :
    Option String := do
  let bound ← body.position? name
  (plan.exprAliases cond).find? fun read =>
    match body.position? read with
    | some position => bound < position
    | none => false

/-- Checks that join conditions read no source joined after their own. -/
def Plan.checkJoins (plan : Plan) (body : Body) :
    List (String × Expr) → Except BuildError Unit
  | [] => .ok ()
  | (name, cond) :: rest =>
      match plan.laterAlias? body name cond with
      | some later => .error (.laterAlias name later)
      | none => plan.checkJoins body rest

section

variable (plan : Plan) (walkBody : Walk → BodyId → Option NodeId → Sketching NodeId)

/-- Walks a source of a body; that of a query is the selection of its body. -/
def walkSource (walk : Walk) (owner : BodyId) (dependent : NodeId) (source : Source) :
    Sketching Unit := do
  match ← known walk (.source source.id) dependent with
  | some _ => return ()
  | none =>
      match source.origin with
      | .collection ref =>
          let conditions := (plan.body owner).conditionsReading source.name
          discard <| create (.source source.id) (.collection source ref conditions) dependent
      | .query sub =>
          let node ← walkBody walk sub dependent
          modify (·.register (.source source.id) node)

def walkSources (walk : Walk) (owner : BodyId) (dependent : NodeId) :
    List Source → Sketching Unit
  | [] => return ()
  | source :: rest => do
      walkSource plan walkBody walk owner dependent source
      walkSources walk owner dependent rest

mutual

/-- Walks an expression of a body. -/
def walkExpr (walk : Walk) (owner : BodyId) (dependent : NodeId) (e : Expr) :
    Sketching Unit := do
  match ← known walk (.expr e.id) dependent with
  | some _ => return ()
  | none =>
      match e with
      | .literal id value =>
          discard <| create (.expr id) (.expression (.literal id value)) dependent
      | .reference id path =>
          match plan.resolve? walk.scopes path.base with
          | none => throw (.unresolvedAlias path.toText)
          | some (binder, source) =>
              let node ← create (.expr id) (.expression (.reference id path)) dependent
              walkSource plan walkBody walk binder node source
      | .call id function args =>
          let node ← create (.expr id) (.expression (.call id function args)) dependent
          walkExprs (walk.inside (.expr id)) owner node args
      | .aggregate id function args =>
          let node ← create (.expr id) (.aggregate (.aggregate id function args) owner) dependent
          walkExprs (walk.inside (.expr id)) owner node args
      | .subquery id body =>
          let node ← create (.expr id) (.expression (.subquery id body)) dependent
          discard <| walkBody (walk.inside (.expr id)) body node

def walkExprs (walk : Walk) (owner : BodyId) (dependent : NodeId) :
    List Expr → Sketching Unit
  | [] => return ()
  | e :: rest => do
      walkExpr walk owner dependent e
      walkExprs walk owner dependent rest

end

end

namespace Plan

/-- Walks a body, and those below it to a given depth. -/
def walkBody (plan : Plan) : Nat → Walk → BodyId → Option NodeId → Sketching NodeId
  | 0, _, id, _ => throw (.cyclicDefinition (NodeKind.selection id).describe)
  | depth + 1, walk, id, dependent => do
      match ← known walk (.body id) dependent with
      | some node => return node
      | none =>
          let node ← create (.body id) (.selection id) dependent
          let body := plan.body id
          let inner := walk.enter id
          walkSources plan (plan.walkBody depth) inner id node body.sources
          walkExprs plan (plan.walkBody depth) inner id node body.expressions
          plan.checkJoins body body.joinConditions
          return node

/-- The dependency graph of a query that is valid. At most all bodies are walked at a
time, so one more than there are is met again. -/
def graph (plan : Plan) (query : BodyId) : Except BuildError Graph :=
  match plan.validate query with
  | .error error => .error error
  | .ok () =>
      match (plan.walkBody (plan.depth + 1) {} query none).run {} with
      | .error error => .error error
      | .ok (root, sketch) => .ok { nodes := sketch.nodes, index := sketch.index, root }

end Plan

/-- The query that a draft has become, if its body was written without an error and its
graph can be built. -/
def Draft.finish (d : Draft) : Except BuildError BodyId :=
  match d.outcome with
  | some error => .error error
  | none =>
      match d.plan.graph d.scope.body with
      | .error error => .error error
      | .ok _ => .ok d.scope.body

end LiveQuery
