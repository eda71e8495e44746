import LiveQuery.Evaluator.Functions
import LiveQuery.Evaluator.Error
import LiveQuery.Key
import LiveQuery.Plan

/-!
# Evaluating expressions

An expression is evaluated against frames, the innermost body's first: each holds the
values bound to the sources of a body, and when a group is put out also the values of
the group's aggregates. An alias stands for the value bound in the first frame whose
body binds it. The rows of sources and of subqueries come from outside.
-/

namespace LiveQuery

/-- The values bound to the sources of a body, by position. Sources not bound yet and
those that join nothing are `undefined`. -/
structure Frame where
  body : BodyId
  env : List Scalar
  aggregates : Option (List (ExprId × Scalar)) := none

/-- What evaluation reads: the rows of a source, and the output rows of a body in
order, both as seen from given frames. -/
structure Inputs where
  rows : Source → List Frame → Except EvalError Rows
  subquery : BodyId → List Frame → Except EvalError (List Row)

/-- What evaluation depends on besides the frames. -/
structure Evaluator where
  plan : Plan
  policy : FieldPolicy
  inputs : Inputs

/-- What becomes of an error that the policy decides about. -/
def FieldPolicy.settle (policy : FieldPolicy) (error : EvalError) : Except EvalError Scalar :=
  match policy with
  | undefined => .ok .undefined
  | strict => .error error

/-- The value that the rows of a subquery stand for: none is null, and of the first row
the only value, or the row when it has not just one. -/
def valueOfRows : List Row → Scalar
  | [] => .null
  | .cons _ value .nil :: _ => value
  | row :: _ => .record row

namespace Evaluator

/-- The value bound to an alias. -/
def bound (ev : Evaluator) (name : String) : List Frame → Except EvalError Scalar
  | [] => .error (.unboundAlias name)
  | frame :: outer =>
      match (ev.plan.body frame.body).position? name with
      | some position => .ok (frame.env.getD position .undefined)
      | none => ev.bound name outer

/-- Follows fields down from a value, given the path followed so far. What is missing
has no fields. -/
def descend (ev : Evaluator) (path : Path) (value : Scalar) :
    List String → Except EvalError Scalar
  | [] => .ok value
  | field :: rest =>
      let path := path.get field
      let missing := ev.policy.settle (.fieldNotFound path.base path.toText)
      match value with
      | .record row =>
          match row.get? field with
          | some value => ev.descend path value rest
          | none => missing
      | .undefined => .ok .undefined
      | .null => .ok .undefined
      | _ => missing

/-- The value at a path. -/
def lookup (ev : Evaluator) (frames : List Frame) (path : Path) : Except EvalError Scalar := do
  ev.descend ⟨path.base, []⟩ (← ev.bound path.base frames) path.fields

/-- The value of an aggregate in the innermost frame. -/
def aggregateValue (frames : List Frame) (e : Expr) : Except EvalError Scalar :=
  match frames.head?.bind Frame.aggregates with
  | none => .error (.missingAggregate e.describe)
  | some values =>
      match values.lookup e.id with
      | some value => .ok value
      | none => .error (.missingAggregate e.describe)

/-- Applies a function to evaluated arguments. -/
def applied (ev : Evaluator) (function : Function) (values : List Scalar) :
    Except EvalError Scalar :=
  match function.apply values with
  | some value => .ok value
  | none => ev.policy.settle (.typeMismatch function (values.map Scalar.kind))

mutual

/-- The value of an expression. -/
def eval (ev : Evaluator) (frames : List Frame) : Expr → Except EvalError Scalar
  | .literal _ value => .ok value
  | .reference _ path => ev.lookup frames path
  | .aggregate id function args => aggregateValue frames (.aggregate id function args)
  | .subquery _ body => do return valueOfRows (← ev.inputs.subquery body frames)
  | .call _ .and args => do
      return .bool (← ev.firstWhere frames (fun v => !v.truthy) args).isNone
  | .call _ .or args => do
      return .bool (← ev.firstWhere frames Scalar.truthy args).isSome
  | .call _ .coalesce args => do
      return (← ev.firstWhere frames (fun v => !v.isNullish) args).getD .null
  | .call _ function args => do ev.applied function (← ev.evalAll frames args)

/-- The values of expressions. -/
def evalAll (ev : Evaluator) (frames : List Frame) : List Expr → Except EvalError (List Scalar)
  | [] => return []
  | e :: rest => do
      let value ← ev.eval frames e
      return value :: (← ev.evalAll frames rest)

/-- The first value with a property; later expressions are not evaluated. -/
def firstWhere (ev : Evaluator) (frames : List Frame) (p : Scalar → Bool) :
    List Expr → Except EvalError (Option Scalar)
  | [] => return none
  | e :: rest => do
      let value ← ev.eval frames e
      if p value then return some value else ev.firstWhere frames p rest

end

/-- Whether a condition holds. -/
def holds (ev : Evaluator) (frames : List Frame) (cond : Expr) : Except EvalError Bool := do
  return (← ev.eval frames cond).truthy

/-- Whether a condition lets the frames through; where there is none, all pass. -/
def admits (ev : Evaluator) (frames : List Frame) : Option Expr → Except EvalError Bool
  | none => return true
  | some cond => ev.holds frames cond

end Evaluator

end LiveQuery
