import LiveQuery.View

/-!
# Output rows

A body puts out one row for each tuple, or for each group that `having` keeps. Outside
aggregates a group's expressions are evaluated on its first tuple; in a group without
tuples all sources are missing.
-/

namespace LiveQuery

namespace Evaluator

/-- Adds the fields of a selection to a row, one after another. -/
def projectFields (ev : Evaluator) (frames : List Frame) (row : Row) :
    List SelectField → Except EvalError Row
  | [] => return row
  | .named name e :: rest => do
      let value ← ev.eval frames e
      ev.projectFields frames (row.insert name value) rest
  | .spread e :: rest => do
      match ← ev.eval frames e with
      | .record fields => ev.projectFields frames (row.extend fields) rest
      | _ => ev.projectFields frames row rest

/-- The row that a selection makes. -/
def projectRow (ev : Evaluator) (frames : List Frame) : Option Selection → Except EvalError Row
  | none => return .nil
  | some (.fields items) => ev.projectFields frames .nil items
  | some (.value e) => do
      match ← ev.eval frames e with
      | .record row => return row
      | value => return Row.nil.insert "value" value

/-- The output row of a body in given frames, with its values to sort by. -/
def project (ev : Evaluator) (frames : List Frame) (body : Body) : Except EvalError StagedRow := do
  let row ← ev.projectRow frames body.selection
  let sort ← ev.evalAll frames (body.orderTerms.map OrderTerm.expr)
  return { row, sort }

/-- The value that an aggregate folds for a tuple. -/
def aggregated (ev : Evaluator) (frames : List Frame) : Expr → Except EvalError Scalar
  | .aggregate _ _ (arg :: _) => ev.eval frames arg
  | _ => return .null

/-- The values that aggregates fold for a tuple. -/
def aggregatedAll (ev : Evaluator) (frames : List Frame) :
    List Expr → Except EvalError (List Scalar)
  | [] => return []
  | e :: rest => do
      let value ← ev.aggregated frames e
      return value :: (← ev.aggregatedAll frames rest)

end Evaluator

namespace Blueprint

variable (b : Blueprint) (ev : Evaluator) (outer : List Frame)

/-- The frames in which a tuple of the body is seen. -/
def frames (env : List Scalar) : List Frame :=
  { body := b.joins.body, env } :: outer

/-- The key of the group that a tuple falls into. -/
def groupKey (env : List Scalar) : Except EvalError Key := do
  return ⟨← ev.evalAll (b.frames outer env) b.body.groupExprs⟩

/-- The values bound by the first tuple of a group. -/
def groupEnv (view : View) (group : Group) : List Scalar :=
  let first := group.members.first?.bind fun member => view.tuples.get? member.1
  match first with
  | some bound => bound.env
  | none => b.joins.steps.map fun _ => .undefined

/-- The frames in which a group of the body is seen. -/
def groupFrames (view : View) (group : Group) : List Frame :=
  { body := b.joins.body
    env := b.groupEnv view group
    aggregates := some ((b.aggregates.map Expr.id).zip (group.states.map Accumulator.value)) }
  :: outer

/-- The output row of a tuple or of a group, by its key. -/
def stagedRow (view : View) (key : Key) : Except EvalError (Option StagedRow) :=
  if b.grouped then
    match view.groups.get? key with
    | none => return none
    | some group => do
        let frames := b.groupFrames outer view group
        if ← ev.admits frames b.body.having then
          return some (← ev.project frames b.body)
        else return none
  else
    match view.tuples.get? key with
    | none => return none
    | some bound => return some (← ev.project (b.frames outer bound.env) b.body)

end Blueprint

end LiveQuery
