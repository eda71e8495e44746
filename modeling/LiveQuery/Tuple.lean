import LiveQuery.Evaluator
import LiveQuery.Plan.FreeAliases

/-!
# Joins

The sources of a body are bound in order. Each step extends the tuples so far by the
rows of one more source that meet its join condition; outer joins keep what nothing
joins, with the other side missing. At the end `where` decides which tuples stay. A
tuple is identified by the keys of its rows, with null for a missing side.

A lateral source reads the sources before it, and has rows of its own for each tuple.
-/

namespace LiveQuery

/-- A source with the condition that joins it. -/
structure JoinStep where
  source : Source
  condition : Option Expr
  lateral : Bool

namespace JoinStep

def keepsLeft (step : JoinStep) : Bool :=
  step.source.join.any JoinKind.keepsLeft

def keepsRight (step : JoinStep) : Bool :=
  step.source.join.any JoinKind.keepsRight

end JoinStep

/-- The steps that bind the sources of a body, and its `where` condition. -/
structure JoinPlan where
  body : BodyId
  steps : List JoinStep
  filter : Option Expr

/-- The join of a body of a plan. -/
def Plan.joinPlan (plan : Plan) (id : BodyId) : JoinPlan where
  body := id
  steps := (plan.body id).sources.map fun source =>
    { source
      condition := (plan.body id).joinCondition? source.name
      lateral := plan.isLateral source }
  filter := (plan.body id).filter

/-- The rows bound to the first sources of a body: their keys, none for a missing
side, and the values bound. -/
structure PartialTuple where
  keys : List (Option Key) := []
  env : List Scalar := []

/-- A tuple of all sources, with its key. -/
structure Tuple where
  key : Key
  env : List Scalar
deriving DecidableEq

namespace PartialTuple

/-- The tuple with a row of one more source. -/
def bind (t : PartialTuple) (entry : Key × Row) : PartialTuple :=
  { keys := t.keys ++ [some entry.1], env := t.env ++ [.record entry.2] }

/-- The tuple with one more source missing. -/
def skip (t : PartialTuple) : PartialTuple :=
  { keys := t.keys ++ [none], env := t.env ++ [.undefined] }

/-- The tuple of `n` missing sources. -/
def missing (n : Nat) : PartialTuple :=
  { keys := List.replicate n none, env := List.replicate n .undefined }

def complete (t : PartialTuple) : Tuple :=
  ⟨.composite t.keys, t.env⟩

end PartialTuple

namespace JoinPlan

variable (ev : Evaluator) (body : BodyId) (outer : List Frame)

/-- The frames in which a tuple of a body is seen. -/
def frames (env : List Scalar) : List Frame :=
  { body, env } :: outer

/-- The entries that join a tuple. -/
def matching (step : JoinStep) (t : PartialTuple) :
    List (Key × Row) → Except EvalError (List (Key × Row))
  | [] => return []
  | entry :: rest => do
      let joins ← ev.admits (frames body outer (t.bind entry).env) step.condition
      let others ← matching step t rest
      return if joins then entry :: others else others

/-- The tuples that a tuple becomes when entries join it. -/
def extended (step : JoinStep) (t : PartialTuple) (entries : List (Key × Row)) :
    List PartialTuple :=
  if entries.isEmpty && step.keepsLeft then [t.skip] else entries.map t.bind

/-- The tuples extended by one more source, and the keys of its rows that joined. The
rows are given, unless each tuple has rows of its own. -/
def extendAll (step : JoinStep) (shared : Option Rows) :
    List PartialTuple → Except EvalError (List PartialTuple × List Key)
  | [] => return ([], [])
  | t :: rest => do
      let rows ←
        match shared with
        | some rows => pure rows
        | none => ev.inputs.rows step.source (frames body outer t.env)
      let entries ← matching ev body outer step t rows.entries
      let (tuples, keys) ← extendAll step shared rest
      return (extended step t entries ++ tuples, entries.map Prod.fst ++ keys)

/-- The entries that no tuple joined, as tuples with all sources before them missing. -/
def unmatched (position : Nat) (rows : Rows) (matched : List Key) : List PartialTuple :=
  let matched := OrdSet.ofList matched
  (rows.entries.filter fun entry => !matched.contains entry.1).map
    (PartialTuple.missing position).bind

/-- One step of the join at a position. -/
def runStep (step : JoinStep) (position : Nat) (shared : Option Rows)
    (tuples : List PartialTuple) : Except EvalError (List PartialTuple) := do
  let (joined, matched) ← extendAll ev body outer step shared tuples
  match shared, step.keepsRight with
  | some rows, true => return joined ++ unmatched position rows matched
  | _, _ => return joined

/-- The rows of a source that are the same for all tuples, none for a lateral one. -/
def sharedRows (fixed : Option (Nat × Rows)) (step : JoinStep) (position : Nat) :
    Except EvalError (Option Rows) :=
  match fixed with
  | some (p, rows) =>
      if p = position then .ok (some rows)
      else if step.lateral then .ok none
      else some <$> ev.inputs.rows step.source outer
  | none => if step.lateral then .ok none else some <$> ev.inputs.rows step.source outer

/-- The steps from a position on. -/
def runSteps (fixed : Option (Nat × Rows)) (position : Nat) (tuples : List PartialTuple) :
    List JoinStep → Except EvalError (List PartialTuple)
  | [] => return tuples
  | step :: rest => do
      let shared ← sharedRows ev outer fixed step position
      let tuples ← runStep ev body outer step position shared tuples
      runSteps fixed (position + 1) tuples rest

/-- The tuples that `where` keeps. -/
def filtered (filter : Option Expr) : List PartialTuple → Except EvalError (List Tuple)
  | [] => return []
  | t :: rest => do
      let stays ← ev.admits (frames body outer t.env) filter
      let others ← filtered filter rest
      return if stays then t.complete :: others else others

/-- All tuples of a body, seen from outer frames. The rows of the source at one position
may be fixed, to find the tuples that contain some of them. -/
def enumerate (joins : JoinPlan) (ev : Evaluator) (outer : List Frame)
    (fixed : Option (Nat × Rows)) : Except EvalError (List Tuple) := do
  let tuples ← runSteps ev joins.body outer fixed 0 [{}] joins.steps
  filtered ev joins.body outer joins.filter tuples

end JoinPlan

end LiveQuery
