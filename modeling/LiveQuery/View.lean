import LiveQuery.Accumulator
import LiveQuery.Graph
import LiveQuery.Tuple

/-!
# Views

The view of a body is the state from which its output follows and can be kept up to
date: the tuples of its join, the groups they fall into, the rows put out for each
tuple or group, and of these the visible ones, which the window leaves.
-/

namespace LiveQuery

/-- What the upkeep of a body's view depends on. A nested body has scalar subqueries,
whose values can change while its tuples stay. -/
structure Blueprint where
  body : Body
  joins : JoinPlan
  aggregates : List Expr
  grouped : Bool
  nested : Bool

/-- The blueprint of a body, given the graph of a query that is made of it. -/
def Plan.blueprint (plan : Plan) (graph : Graph) (id : BodyId) : Blueprint where
  body := plan.body id
  joins := plan.joinPlan id
  aggregates := graph.aggregatesOf id
  grouped := (plan.body id).isGrouped
  nested := (plan.body id).expressions.any Expr.containsSubquery

/-- The tuples with equal group values, and the states of the aggregates over them. -/
structure Group where
  members : OrdSet Key := OrdMap.empty
  states : List Accumulator

/-- An output row before the window, with the values to sort it by. -/
structure StagedRow where
  row : Row
  sort : List Scalar

/-- The values bound in a tuple, and the key of its group. -/
structure BoundTuple where
  env : List Scalar
  group : Option Key

/-- The tuples that bind a row, by the row's key as a scalar. -/
abbrev PartIndex := OrdMap Scalar (OrdSet Key)

/-- The state of a body's output. There is an index for each source; `order` lists the
visible keys of a body with a window. -/
structure View where
  tuples : OrdMap Key BoundTuple := OrdMap.empty
  parts : List PartIndex := []
  groups : OrdMap Key Group := OrdMap.empty
  staged : OrdMap Key StagedRow := OrdMap.empty
  visible : Rows := OrdMap.empty
  order : List Key := []

namespace Blueprint

/-- A group without tuples. -/
def emptyGroup (b : Blueprint) : Group where
  states := b.aggregates.map fun
    | .aggregate _ function args => .start function args.length
    | _ => .start .count 0

/-- The view without tuples. Aggregates without `group by` are over one group, which is
there from the beginning. -/
def emptyView (b : Blueprint) : View where
  parts := b.joins.steps.map fun _ => OrdMap.empty
  groups :=
    if b.grouped && b.body.groupBy.isNone then OrdMap.ofList [(⟨[]⟩, b.emptyGroup)]
    else OrdMap.empty

end Blueprint

namespace View

/-- The output in order: that of the window, or of the keys. -/
def output (view : View) (b : Blueprint) : List (Key × Row) :=
  if b.body.isWindowed then
    view.order.filterMap fun key => (view.visible.get? key).map (key, ·)
  else view.visible.entries

end View

namespace PartIndex

/-- Notes a tuple under each of its parts. -/
def addTuple (key : Key) : List Scalar → List PartIndex → List PartIndex
  | part :: rest, index :: others =>
      index.insert part (((index.get? part).getD OrdMap.empty).add key)
        :: addTuple key rest others
  | _, others => others

/-- Takes a tuple out of an index, and the part with its last tuple. -/
def removePart (key : Key) (part : Scalar) (index : PartIndex) : PartIndex :=
  match index.get? part with
  | none => index
  | some keys =>
      let left := OrdMap.erase keys key
      if left.isEmpty then index.erase part else index.insert part left

/-- Takes a tuple out under each of its parts. -/
def removeTuple (key : Key) : List Scalar → List PartIndex → List PartIndex
  | part :: rest, index :: others => removePart key part index :: removeTuple key rest others
  | _, others => others

end PartIndex

end LiveQuery
