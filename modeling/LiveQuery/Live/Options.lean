import LiveQuery.Evaluator.Error
import LiveQuery.Json.Record

/-!
# Options of live queries

Options may be read from JSON, where those that are not given have their defaults.
-/

namespace LiveQuery

/-- The policy with a given name. -/
def FieldPolicy.ofName? : String → Option FieldPolicy
  | "undefined" => some .undefined
  | "strict" => some .strict
  | _ => none

/-- The options of a live query: the name it goes by in errors, whether it is evaluated
at once, how missing fields are evaluated, and whether output is kept for the first
subscriber. -/
structure LiveOptions where
  id : String
  startPreloaded : Bool := false
  policy : FieldPolicy := .undefined
  bufferUntilSubscribed : Bool := true

/-- The options in a JSON record, with a default for the name. -/
def LiveOptions.ofJson? (name : String) (json : Json) : Option LiveOptions := do
  let fields ← json.recordFields?
    ["id", "start_preloaded", "field_policy", "buffer_until_subscribed"]
  let id ←
    match fields.lookup "id" with
    | none => some name
    | some .null => some name
    | some (.text id) => some id
    | _ => none
  let startPreloaded ← Json.flag? fields "start_preloaded" false
  let policy ←
    match fields.lookup "field_policy" with
    | none => some .undefined
    | some policy => policy.choice?.bind FieldPolicy.ofName?
  let bufferUntilSubscribed ← Json.flag? fields "buffer_until_subscribed" true
  return { id, startPreloaded, policy, bufferUntilSubscribed }

end LiveQuery
