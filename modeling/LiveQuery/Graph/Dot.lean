import LiveQuery.Graph
import LiveQuery.Json.Record

/-!
# Drawing dependency graphs

A graph is written in the dot language, in the order of its nodes, with edges from
inputs to dependents. Each edge is drawn once, however often it is used.
-/

namespace LiveQuery

/-- What a drawing shows: literals, the conditions that read a collection, and the
numbers of the nodes. -/
structure DotOptions where
  literals : Bool := true
  conditions : Bool := true
  numbers : Bool := false

/-- The options in a JSON record. -/
def DotOptions.ofJson? (json : Json) : Option DotOptions := do
  let fields ← json.recordFields? ["show_literals", "show_conditions", "show_ir_ids"]
  let literals ← Json.flag? fields "show_literals" true
  let conditions ← Json.flag? fields "show_conditions" true
  let numbers ← Json.flag? fields "show_ir_ids" false
  return { literals, conditions, numbers }

namespace Dot

/-- A character inside a quoted label. -/
def escapeChar (c : Char) : List Char :=
  match c with
  | '\t' => ['\\', 't']
  | '\n' => ['\\', 'n']
  | '\r' => ['\\', 'r']
  | '\'' => ['\\', '\'']
  | '"' => ['\\', '"']
  | '\\' => ['\\', '\\']
  | _ => if 32 ≤ c.toNat && c.toNat ≤ 126 then [c] else Text.codePoint c

/-- A label in quotes. -/
def label (s : String) : String :=
  "\"" ++ String.ofList (s.toList.flatMap escapeChar) ++ "\""

def shape : NodeKind → String
  | .collection .. => "cylinder"
  | .expression _ => "box"
  | .aggregate .. => "hexagon"
  | .selection _ => "doubleoctagon"

def color? : NodeKind → Option String
  | .collection .. => some "blue"
  | .expression _ => none
  | .aggregate .. => some "red"
  | .selection _ => some "darkgreen"

/-- The fields of a selection. -/
def selectionText : Option Selection → String
  | none => ""
  | some (.value e) => e.describe
  | some (.fields items) =>
      ", ".intercalate <| items.map fun
        | .named name _ => name
        | .spread e => ".." ++ e.describe

def bodyText (body : Body) : String :=
  "select \x7b" ++ selectionText body.selection ++ "\x7d"
    ++ (if body.groupBy.isSome then " grouped" else "")
    ++ (if body.isWindowed then " windowed" else "")

/-- What is written in a node. -/
def nodeText (plan : Plan) (options : DotOptions) : NodeKind → String
  | .collection source ref conditions =>
      let name := ref.name ++ " as " ++ source.name
      if options.conditions && !conditions.isEmpty then
        name ++ "\n[" ++ " && ".intercalate (conditions.map Expr.describe) ++ "]"
      else name
  | .expression (.call _ function _) => function.name
  | .expression (.subquery ..) => "subquery"
  | .expression e => e.describe
  | .aggregate e _ => e.describe
  | .selection body => bodyText (plan.body body)

/-- Whether a node is drawn. -/
def shows (options : DotOptions) : NodeKind → Bool
  | .expression e => options.literals || !e.isLiteral
  | _ => true

def nodeName (k : NodeId) : String :=
  "node" ++ toString k

def nodeLine (plan : Plan) (options : DotOptions) (k : NodeId) (kind : NodeKind) : String :=
  let text := nodeText plan options kind
  let text := if options.numbers then text ++ " #" ++ toString k else text
  let color :=
    match color? kind with
    | some color => "[color=" ++ label color ++ "]"
    | none => ""
  "    " ++ nodeName k ++ "[label=" ++ label text ++ "]" ++ color
    ++ "[shape=" ++ label (shape kind) ++ "];\n"

def edgeLine (edge : NodeId × NodeId) : String :=
  "    " ++ nodeName edge.1 ++ " -> " ++ nodeName edge.2 ++ "[label=\"\"];\n"

end Dot

/-- The drawing of a graph over its plan. -/
def Graph.toDot (g : Graph) (plan : Plan) (options : DotOptions) : String :=
  let shown := fun k => Dot.shows options (g.node k).kind
  let drawn := g.order.filter shown
  let edges := drawn.flatMap fun k => ((g.node k).dependsOn.filter shown).map (·, k)
  "digraph livedb_query \x7b\n"
    ++ String.join (drawn.map fun k => Dot.nodeLine plan options k (g.node k).kind)
    ++ String.join (edges.eraseDups.map Dot.edgeLine) ++ "\x7d\n"

end LiveQuery
