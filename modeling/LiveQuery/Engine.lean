import LiveQuery.Collection
import LiveQuery.Graph.Walk
import LiveQuery.View.Upkeep

/-!
# Engines

An engine maintains the output of one query. Through each source that reads a
collection it keeps a feed: the rows that pass the conditions on that source alone.
Each body that reads nothing from outside has a view; the other bodies are evaluated
when they are needed, for the frames they are needed in. A batch of changes updates the
feeds, then the views that depend on them, inner bodies first.
-/

namespace LiveQuery

/-- The rows of a collection that a source lets through, with the node of the source
and its place in a body. -/
structure Feed where
  node : NodeId
  body : BodyId
  position : Nat
  collection : CollectionRef
  filters : List Expr
  rows : Rows := OrdMap.empty

structure Engine where
  plan : Plan
  graph : Graph
  query : BodyId
  policy : FieldPolicy
  feeds : OrdMap SourceId Feed := OrdMap.empty
  views : OrdMap BodyId View := OrdMap.empty

namespace Plan

/-- The feeds of the sources of a body that read collections. -/
def feedsOf (plan : Plan) (graph : Graph) (id : BodyId) : List (SourceId × Feed) :=
  let sources := (plan.body id).sources.zipIdx
  sources.filterMap fun (source, position) =>
    match source.origin with
    | .query _ => none
    | .collection ref =>
        some (source.id,
          { node := (graph.nodeOf? (.source source.id)).getD 0
            body := id
            position
            collection := ref
            filters := (plan.body id).pushable source })

/-- Whether the view of a body can follow the changes of its sources: it is made of
inner joins and evaluates no other body. All other views are derived anew. -/
def isIncremental (plan : Plan) (id : BodyId) : Bool :=
  (plan.body id).innerOnly && !plan.evaluatesOthers id

end Plan

namespace Engine

/-- The engine of a query, with nothing in its feeds and views. -/
def ofQuery (plan : Plan) (query : BodyId) (policy : FieldPolicy) :
    Except BuildError Engine := do
  let graph ← plan.graph query
  let bodies := graph.selections.map Prod.snd
  let uncorrelated := bodies.filter fun id => !plan.isCorrelated id
  return {
    plan, graph, query, policy
    feeds := OrdMap.ofList (bodies.flatMap (plan.feedsOf graph))
    views := OrdMap.ofList (uncorrelated.map fun id => (id, (plan.blueprint graph id).emptyView)) }

/-- The collections that the query reads, each once, in the order of its sources. -/
def collections (e : Engine) : List CollectionRef :=
  (e.feeds.values.map Feed.collection).eraseDupsBy fun a b => a.id == b.id

def blueprint (e : Engine) (id : BodyId) : Blueprint :=
  e.plan.blueprint e.graph id

/-- The view of a body that is evaluated for given frames only. -/
def viewWithin (e : Engine) (inputs : Inputs) (id : BodyId) (outer : List Frame) :
    Except EvalError View :=
  let b := e.blueprint id
  match b.rederive { plan := e.plan, policy := e.policy, inputs } outer b.emptyView with
  | .ok _ view => .ok view
  | .error error _ => .error error

/-- What evaluation reads, with bodies evaluated for frames down to a given depth. -/
def inputsWithin (e : Engine) : Nat → Inputs
  | 0 =>
      { rows := fun _ _ => .error .tooDeep
        subquery := fun _ _ => .error .tooDeep }
  | depth + 1 =>
      { rows := fun source outer =>
          match source.origin with
          | .collection _ => .ok (((e.feeds.get? source.id).map Feed.rows).getD OrdMap.empty)
          | .query id =>
              match e.views.get? id, outer with
              | some view, _ => .ok view.visible
              | none, [] => .error (.unboundAlias source.name)
              | none, outer => View.visible <$> e.viewWithin (e.inputsWithin depth) id outer
        subquery := fun id outer => do
          let view ←
            match e.views.get? id with
            | some view => .ok view
            | none => e.viewWithin (e.inputsWithin depth) id outer
          return (view.output (e.blueprint id)).map Prod.snd }

/-- The evaluation of the query over the feeds and views there are. -/
def evaluator (e : Engine) : Evaluator :=
  { plan := e.plan, policy := e.policy, inputs := e.inputsWithin e.plan.depth }

/-- Whether a row meets conditions in given frames; the first that fails decides. -/
def meets (ev : Evaluator) (frames : List Frame) : List Expr → Except EvalError Bool
  | [] => return true
  | cond :: rest => do
      if ← ev.holds frames cond then meets ev frames rest else return false

/-- Whether a row passes the filters of a feed. All other sources are missing. -/
def passes (e : Engine) (feed : Feed) (row : Row) : Except EvalError Bool :=
  let env := List.replicate feed.position .undefined ++ [.record row]
  meets e.evaluator [{ body := feed.body, env }] feed.filters

/-- The entries whose rows pass the filters of a feed. -/
def passing (e : Engine) (feed : Feed) :
    List (Key × Row) → Except EvalError (List (Key × Row))
  | [] => return []
  | entry :: rest => do
      let passes ← e.passes feed entry.2
      let others ← e.passing feed rest
      return if passes then entry :: others else others

/-- Feeds with the rows of their collections. -/
def loadAll (e : Engine) (contents : CollectionId → Rows) :
    List (SourceId × Feed) → Except EvalError (List (SourceId × Feed))
  | [] => return []
  | (id, feed) :: rest => do
      let rows ← e.passing feed (contents feed.collection.id).entries
      let others ← e.loadAll contents rest
      return (id, { feed with rows := OrdMap.ofList rows }) :: others

/-- An operation on an engine. When it fails, the engine stays as far as it got. -/
abbrev Running := EStateM EvalError Engine

/-- The outcome of an evaluation as an operation. -/
def ofExcept {α : Type} : Except EvalError α → Running α
  | .ok a => pure a
  | .error e => throw e

/-- Sets the view of a body. -/
def setView (e : Engine) (id : BodyId) (view : View) : Engine :=
  { e with views := e.views.insert id view }

/-- Evaluates the views of bodies from scratch. A view that fails stays as it was. -/
def startViews : List BodyId → Running Unit
  | [] => return ()
  | id :: rest => do
      let e ← get
      match e.views.get? id with
      | none => startViews rest
      | some _ =>
          let b := e.blueprint id
          match b.rederive e.evaluator [] b.emptyView with
          | .error error _ => throw error
          | .ok _ view =>
              set (e.setView id view)
              startViews rest

/-- Loads the contents of the collections and evaluates the query from scratch. -/
def load (contents : CollectionId → Rows) : Running Unit := do
  let e ← get
  let feeds ← ofExcept (e.loadAll contents e.feeds.entries)
  set { e with feeds := OrdMap.ofList feeds }
  startViews (e.graph.selections.map Prod.snd)

/-- What becomes of the row of a key in a feed. -/
structure FeedWrite where
  key : Key
  row : Option Row

/-- What changes of its collection do to a feed. -/
def feedWrites (e : Engine) (feed : Feed) : List Change → Except EvalError (List FeedWrite)
  | [] => return []
  | change :: rest => do
      let kept ← if change.isUpsert then e.passes feed change.row else pure false
      let others ← e.feedWrites feed rest
      return ⟨change.key, if kept then some change.row else none⟩ :: others

/-- The rows of a feed after writes, and the keys where a write changed them. -/
def writeRows (rows : Rows) : List FeedWrite → Rows × List Key
  | [] => (rows, [])
  | write :: rest =>
      let (written, keys) := writeRows (rows.set write.key write.row) rest
      (written, if rows.get? write.key = write.row then keys else write.key :: keys)

/-- Feeds after a batch, each with its changed keys. Those of other collections stay. -/
def writeFeeds (e : Engine) (collection : CollectionId) (batch : List Change) :
    List (SourceId × Feed) → Except EvalError (List (SourceId × Feed × List Key))
  | [] => return []
  | (id, feed) :: rest => do
      let writes ← if feed.collection.id = collection then e.feedWrites feed batch else pure []
      let others ← e.writeFeeds collection batch rest
      let (rows, keys) := writeRows feed.rows writes
      return (id, { feed with rows }, keys) :: others

/-- The keys that a batch changed: in feeds, and in the output of inner bodies. -/
structure Changed where
  sources : List (SourceId × List Key)
  bodies : List (BodyId × List Key) := []

/-- The changed keys of the sources of a body, by position. -/
def changedPositions (e : Engine) (changed : Changed) (id : BodyId) : List (Nat × List Key) :=
  let sources := (e.plan.body id).sources.zipIdx
  sources.filterMap fun (source, position) =>
    let keys :=
      match source.origin with
      | .collection _ => changed.sources.lookup source.id
      | .query sub => changed.bodies.lookup sub
    keys.map (position, ·)

/-- How the view of a body is brought up to date. -/
def updateView (e : Engine) (changed : Changed) (id : BodyId) : Upkeep (List Change) :=
  let b := e.blueprint id
  if e.plan.isIncremental id then
    let positions := e.changedPositions changed id
    if positions.isEmpty then return [] else b.follow e.evaluator positions
  else b.rederive e.evaluator []

/-- Brings the views of bodies up to date, and gives the changes of the query's output.
A view that fails stays as far as it was brought. -/
def updateViews (changed : Changed) (output : List Change) : List BodyId → Running (List Change)
  | [] => return output
  | id :: rest => do
      let e ← get
      match e.views.get? id with
      | none => updateViews changed output rest
      | some view =>
          match e.updateView changed id view with
          | .error error view =>
              set (e.setView id view)
              throw error
          | .ok changes view =>
              set (e.setView id view)
              if id = e.query then updateViews changed changes rest
              else if changes.isEmpty then updateViews changed output rest
              else
                let bodies := (id, changes.map Change.key) :: changed.bodies
                updateViews { changed with bodies } output rest

/-- The bodies whose views depend on changed feeds, inner bodies first. -/
def affectedBodies (e : Engine) (changed : List NodeId) : List BodyId :=
  (e.graph.affectedBy changed).filterMap fun k =>
    match (e.graph.node k).kind with
    | .selection id => some id
    | _ => none

/-- Applies a batch of changes of a collection, and gives the changes of the query's
output. All rows are held against the filters of the feeds before any is written. -/
def apply (collection : CollectionId) (batch : List Change) : Running (List Change) := do
  let e ← get
  let written ← ofExcept (e.writeFeeds collection batch e.feeds.entries)
  let feeds := OrdMap.ofList (written.map fun entry => (entry.1, entry.2.1))
  set { e with feeds }
  let touched := written.filter fun entry => !entry.2.2.isEmpty
  if touched.isEmpty then return []
  else
    let bodies := e.affectedBodies (touched.map fun entry => entry.2.1.node)
    updateViews { sources := touched.map fun entry => (entry.1, entry.2.2) } [] bodies

/-- The output of the query in order. -/
def snapshot (e : Engine) : List (Key × Row) :=
  match e.views.get? e.query with
  | some view => view.output (e.blueprint e.query)
  | none => []

end Engine

/-- Why a query cannot be run. -/
inductive QueryError where
  | build (error : BuildError)
  | eval (error : EvalError)
deriving DecidableEq

namespace QueryError

def message : QueryError → String
  | build error => error.message
  | eval error => error.message

end QueryError

/-- The output of a query over given contents of the collections. -/
def evaluate (plan : Plan) (query : BodyId) (policy : FieldPolicy)
    (contents : CollectionId → Rows) : Except QueryError (List (Key × Row)) :=
  match Engine.ofQuery plan query policy with
  | .error error => .error (.build error)
  | .ok engine =>
      match Engine.load contents engine with
      | .error error _ => .error (.eval error)
      | .ok _ engine => .ok engine.snapshot

/-- An output by keys, in the order of the keys. -/
def keyed (output : List (Key × Row)) : Rows :=
  OrdMap.ofList output

end LiveQuery
