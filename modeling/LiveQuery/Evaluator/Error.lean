import LiveQuery.Function

/-!
# Evaluation errors

Missing fields and values of the wrong kind are errors under the strict policy only;
otherwise they evaluate to `undefined`, which counts as false and leaves output fields
out.
-/

namespace LiveQuery

/-- What a missing field or a value of the wrong kind evaluates to. -/
inductive FieldPolicy where
  | undefined
  | strict
deriving DecidableEq

/-- Why an evaluation fails. Accepted queries are never too deep. -/
inductive EvalError where
  | fieldNotFound (name path : String)
  | typeMismatch (function : Function) (kinds : List String)
  | aggregateStateCorruption (aggregate group : String)
  | unboundAlias (name : String)
  | missingAggregate (aggregate : String)
  | tooDeep
deriving DecidableEq

def EvalError.message : EvalError → String
  | fieldNotFound name path =>
      "field `" ++ path ++ "` not found on the row bound to `" ++ name ++ "`"
  | typeMismatch function kinds =>
      "`" ++ function.name ++ "` cannot be applied to (" ++ ", ".intercalate kinds ++ ")"
  | aggregateStateCorruption aggregate group =>
      "retracted a value never inserted into `" ++ aggregate ++ "` for group " ++ group
  | unboundAlias name => "no source bound to `" ++ name ++ "` while evaluating"
  | missingAggregate aggregate => "aggregate `" ++ aggregate ++ "` evaluated outside of a group"
  | tooDeep => "queries nested too deeply"

end LiveQuery
