import LiveQuery.View.Projection
import LiveQuery.View.Window

/-!
# Keeping views up to date

A view is brought up to date by taking out the tuples that are no more and adding those
that are new. The output rows of the tuples and groups this touches are made again, and
the visible rows follow. The tuples are derived all anew, or, when inner joins make up
the body, only those with a changed row are. Either way the changes of the visible rows
are returned; when evaluation fails, the view stays as far as it was brought.
-/

namespace LiveQuery

/-- An operation on a view. -/
abbrev Upkeep := EStateM EvalError View

/-- The outcome of an evaluation as an operation. -/
def Upkeep.ofExcept {α : Type} : Except EvalError α → Upkeep α
  | .ok a => pure a
  | .error e => throw e

namespace View

def addTuple (view : View) (t : Tuple) (group : Option Key) : View :=
  { view with tuples := view.tuples.insert t.key { env := t.env, group } }

def indexTuple (view : View) (key : Key) : View :=
  { view with parts := PartIndex.addTuple key key.parts view.parts }

def removeTuple (view : View) (key : Key) : View :=
  { view with
    tuples := view.tuples.erase key
    parts := PartIndex.removeTuple key key.parts view.parts }

def setGroup (view : View) (key : Key) (group : Group) : View :=
  { view with groups := view.groups.insert key group }

def removeGroup (view : View) (key : Key) : View :=
  { view with groups := view.groups.erase key }

end View

/-- A value was taken out of an aggregate that did not hold it. -/
def corruption (aggregate : Option Expr) (group : Key) : EvalError :=
  .aggregateStateCorruption ((aggregate.map Expr.describe).getD "group") group.toText

/-- Takes the values of a tuple out of the states of aggregates, up to the first error. -/
def takeOutAll (ev : Evaluator) (frames : List Frame) (group : Key) :
    List Expr → List Accumulator → List Accumulator × Except EvalError Unit
  | e :: rest, state :: states =>
      match ev.aggregated frames e with
      | .error error => (state :: states, .error error)
      | .ok value =>
          match state.takeOut? value with
          | none => (state :: states, .error (corruption (some e) group))
          | some left =>
              let (others, outcome) := takeOutAll ev frames group rest states
              (left :: others, outcome)
  | _, states => (states, .ok ())

namespace Blueprint

variable (b : Blueprint) (ev : Evaluator) (outer : List Frame)

/-- Takes a tuple out of its group, and a group that was asked for with its last tuple. -/
def leaveGroup (groupKey key : Key) (env : List Scalar) : Upkeep Unit := do
  match (← get).groups.get? groupKey with
  | none => throw (corruption b.aggregates.head? groupKey)
  | some group =>
      let members := OrdMap.erase group.members key
      let (states, outcome) :=
        takeOutAll ev (b.frames outer env) groupKey b.aggregates group.states
      modify (·.setGroup groupKey { members, states })
      Upkeep.ofExcept outcome
      if members.isEmpty && b.body.groupBy.isSome then
        modify (·.removeGroup groupKey)

/-- Takes a tuple out, and gives the key of the output row that it touches. -/
def retract (key : Key) : Upkeep (List Key) := do
  match (← get).tuples.get? key with
  | none => return []
  | some bound =>
      modify (·.removeTuple key)
      match bound.group with
      | none => return [key]
      | some groupKey =>
          b.leaveGroup ev outer groupKey key bound.env
          return [groupKey]

/-- Adds a tuple to its group, which is made if it is not there. -/
def enterGroup (t : Tuple) : Upkeep Key := do
  let groupKey ← Upkeep.ofExcept (b.groupKey ev outer t.env)
  let group := ((← get).groups.get? groupKey).getD b.emptyGroup
  modify (·.setGroup groupKey group)
  let values ← Upkeep.ofExcept (ev.aggregatedAll (b.frames outer t.env) b.aggregates)
  modify (·.setGroup groupKey
    { members := group.members.add t.key
      states := List.zipWith Accumulator.add group.states values })
  return groupKey

/-- Adds a tuple, and gives the key of the output row that it touches. -/
def insert (t : Tuple) : Upkeep Key := do
  modify (·.indexTuple t.key)
  if b.grouped then
    let groupKey ← b.enterGroup ev outer t
    modify (·.addTuple t (some groupKey))
    return groupKey
  else
    modify (·.addTuple t none)
    return t.key

def retractAll : List Key → Upkeep (List Key)
  | [] => return []
  | key :: rest => do
      let touched ← b.retract ev outer key
      return touched ++ (← retractAll rest)

def insertAll : List Tuple → Upkeep (List Key)
  | [] => return []
  | t :: rest => do
      let touched ← b.insert ev outer t
      return touched :: (← insertAll rest)

/-- Makes the output rows of keys again. -/
def stageAll : List Key → Upkeep Unit
  | [] => return ()
  | key :: rest => do
      let staged ← Upkeep.ofExcept (b.stagedRow ev outer (← get) key)
      modify fun view => { view with staged := view.staged.set key staged }
      stageAll rest

/-- Lets the visible rows follow the output rows of touched keys. A window is looked at
as a whole. -/
def publish (touched : List Key) : Upkeep (List Change) := do
  let view ← get
  if b.body.isWindowed then
    let rows := b.body.window view.staged
    let visible : Rows := OrdMap.ofList rows
    set { view with visible, order := rows.map Prod.fst }
    return changesBetween view.visible visible (visible.keys ++ view.visible.keys)
  else
    let visible : Rows := touched.foldl
      (fun visible key => visible.set key ((view.staged.get? key).map StagedRow.row))
      view.visible
    set { view with visible }
    return changesBetween view.visible visible touched

/-- Makes the output rows of touched keys again, in order, and the visible rows. -/
def refresh (touched : List Key) : Upkeep (List Change) := do
  let touched := (OrdSet.ofList touched).keys
  b.stageAll ev outer touched
  b.publish touched

/-- The tuples of a view among given keys that are not derived any more. -/
def outdated (view : View) (derived : OrdMap Key (List Scalar)) (keys : List Key) : List Key :=
  keys.filter fun key => derived.get? key ≠ (view.tuples.get? key).map BoundTuple.env

/-- The derived tuples that a view does not have. -/
def newTuples (view : View) (derived : OrdMap Key (List Scalar)) : List Tuple :=
  (derived.entries.filter fun entry =>
    (view.tuples.get? entry.1).map BoundTuple.env ≠ some entry.2).map fun entry =>
      ⟨entry.1, entry.2⟩

/-- Tuples by key. -/
def byKey (tuples : List Tuple) : OrdMap Key (List Scalar) :=
  OrdMap.ofList (tuples.map fun t => (t.key, t.env))

/-- Takes out and adds tuples, and gives the keys of the output rows this touches. -/
def replaceTuples (outdated : List Key) (added : List Tuple) : Upkeep (List Key) := do
  let left ← b.retractAll ev outer outdated
  let entered ← b.insertAll ev outer added
  return left ++ entered

/-- Derives all tuples. A nested body starts from an empty view, but for the visible
rows, which all are made again. The row of a group without tuples is made even if
nothing was touched. -/
def rederive : Upkeep (List Change) := do
  let before ← get
  if b.nested then
    set { b.emptyView with visible := before.visible, order := before.order }
  let derived := byKey (← Upkeep.ofExcept (b.joins.enumerate ev outer none))
  let view ← get
  let touched ← b.replaceTuples ev outer (outdated view derived view.tuples.keys)
    (newTuples view derived)
  let after ← get
  let known := if b.nested then before.visible.keys else []
  let groups := if after.staged.isEmpty then after.groups.keys else []
  b.refresh ev outer (known ++ touched ++ groups)

/-- The tuples that bind one of some changed rows of a source. -/
def staleTuples (view : View) (position : Nat) (keys : List Key) : List Key :=
  keys.flatMap fun key =>
    match (view.parts.getD position OrdMap.empty).get? key.toScalar with
    | some tuples => OrdMap.keys tuples
    | none => []

/-- The tuples that bind one of some changed rows, derived from the rows there are now. -/
def deriveChanged (position : Nat) (keys : List Key) : Except EvalError (List Tuple) :=
  match b.joins.steps[position]? with
  | none => return []
  | some step => do
      let current ← ev.inputs.rows step.source []
      let fixed : Rows :=
        OrdMap.ofList (keys.filterMap fun key => (current.get? key).map (key, ·))
      b.joins.enumerate ev [] (some (position, fixed))

/-- The tuples that bind changed rows, by the positions of their sources. -/
def deriveAllChanged : List (Nat × List Key) → Except EvalError (List Tuple)
  | [] => return []
  | (position, keys) :: rest => do
      let tuples ← b.deriveChanged ev position keys
      return tuples ++ (← deriveAllChanged rest)

/-- Follows changes of the sources of a body that is made of inner joins, given the keys
of the changed rows by position. -/
def follow (changed : List (Nat × List Key)) : Upkeep (List Change) := do
  let changed := changed.filter fun entry => !entry.2.isEmpty
  let derived := byKey (← Upkeep.ofExcept (b.deriveAllChanged ev changed))
  let view ← get
  let stale := changed.flatMap fun entry => staleTuples view entry.1 entry.2
  let touched ← b.replaceTuples ev [] (outdated view derived (OrdSet.ofList stale).keys)
    (newTuples view derived)
  b.refresh ev [] touched

end Blueprint

end LiveQuery
