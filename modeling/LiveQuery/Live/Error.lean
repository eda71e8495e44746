import LiveQuery.Engine

/-!
# Errors of live queries

A live query stops for good when its query cannot be built, when evaluation fails, or
when it is disposed of.
-/

namespace LiveQuery

inductive LiveError where
  | build (error : BuildError)
  | eval (id : String) (error : EvalError)
  | disposed (id : String)
deriving DecidableEq

def LiveError.message : LiveError → String
  | build error => "invalid query: " ++ error.message
  | eval id error => "live query " ++ id ++ " failed: " ++ error.message
  | disposed id => "live query " ++ id ++ " has been disposed"

end LiveQuery
