import LiveQuery.Json
import LiveQuery.Decimal.Positional
import LiveQuery.Text.Hex

/-!
# Writing JSON

Values on one line, without blanks. A float keeps a fraction, so that it reads back as
a float; one that is no number or not finite is written as null.
-/

namespace LiveQuery.Json

/-- A character inside a JSON text. -/
def escapeChar (c : Char) : List Char :=
  match c with
  | '"' => ['\\', '"']
  | '\\' => ['\\', '\\']
  | '\n' => ['\\', 'n']
  | '\r' => ['\\', 'r']
  | '\t' => ['\\', 't']
  | c => if c < ' ' then ['\\', 'u'] ++ Text.paddedHex 4 c.toNat else [c]

def renderText (s : String) : String :=
  String.ofList ('"' :: s.toList.flatMap escapeChar ++ ['"'])

def renderFloat (x : Binary64) : String :=
  if x.isFinite then
    let text := x.toText
    if text.contains '.' then text else text ++ ".0"
  else "null"

mutual

/-- The text of a JSON value. -/
def render : Json → String
  | .null => "null"
  | .bool b => if b then "true" else "false"
  | .int i => toString i
  | .float x => renderFloat x
  | .text s => renderText s
  | .array items => "[" ++ renderItems items ++ "]"
  | .object fields => "\x7b" ++ renderFields fields ++ "\x7d"

def renderItems : List Json → String
  | [] => ""
  | [item] => render item
  | item :: rest => render item ++ "," ++ renderItems rest

def renderFields : List (String × Json) → String
  | [] => ""
  | [(name, value)] => renderText name ++ ":" ++ render value
  | (name, value) :: rest =>
      renderText name ++ ":" ++ render value ++ "," ++ renderFields rest

end

end LiveQuery.Json
