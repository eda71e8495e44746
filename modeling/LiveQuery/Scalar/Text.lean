import LiveQuery.Scalar
import LiveQuery.Decimal.Positional
import LiveQuery.Text.Quoted

/-!
# Scalars as texts

A text is written as it is where it stands alone, and quoted inside a row. A row is
written as its fields between braces.
-/

namespace LiveQuery

mutual

/-- A value standing alone. -/
def Scalar.toText : Scalar → String
  | .undefined => "undefined"
  | .null => "null"
  | .bool b => if b then "true" else "false"
  | .int i => toString i.toInt
  | .float x => x.toText
  | .text s => s
  | .record row => "\x7b" ++ row.fieldsText ++ "\x7d"

/-- The fields of a row, separated by commas. -/
def Row.fieldsText : Row → String
  | .nil => ""
  | .cons name (.text s) .nil => name ++ ": " ++ Text.quoted s
  | .cons name value .nil => name ++ ": " ++ value.toText
  | .cons name (.text s) rest => name ++ ": " ++ Text.quoted s ++ ", " ++ rest.fieldsText
  | .cons name value rest => name ++ ": " ++ value.toText ++ ", " ++ rest.fieldsText

end

/-- The row between braces. -/
def Row.toText (row : Row) : String :=
  (Scalar.record row).toText

end LiveQuery
