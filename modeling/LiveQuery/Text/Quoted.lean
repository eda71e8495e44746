import LiveQuery.Text.Extending
import LiveQuery.Text.Hex
import LiveQuery.Text.Printable

/-!
# Quoted texts

A text between double quotes, on one line and readable: quotes, backslashes and the
common control characters have an escape of their own, and other characters that do
not show as themselves are written by their code point.
-/

namespace LiveQuery.Text

/-- A character written by its code point. -/
def codePoint (c : Char) : List Char :=
  ['\\', 'u', '\x7b'] ++ hex c.toNat ++ ['\x7d']

/-- A character as it stands in a quoted text. -/
def quoteChar (c : Char) : List Char :=
  match c with
  | '\x00' => ['\\', '0']
  | '\t' => ['\\', 't']
  | '\r' => ['\\', 'r']
  | '\n' => ['\\', 'n']
  | '"' => ['\\', '"']
  | '\\' => ['\\', '\\']
  | c => if isExtending c || !isPrintable c then codePoint c else [c]

/-- The text between quotes. -/
def quoted (s : String) : String :=
  String.ofList ('"' :: s.toList.flatMap quoteChar ++ ['"'])

end LiveQuery.Text
