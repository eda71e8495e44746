import LiveQuery.Text.Cased
import LiveQuery.Text.CaseMap

/-!
# Upper and lower case of texts

Characters are mapped one by one, except that a capital sigma at the end of a word
becomes a final sigma. A word ends where a cased letter stands before and none after,
looking past the characters that case conversion ignores.
-/

namespace LiveQuery.Text

/-- Whether the first character that case conversion does not ignore is cased. -/
def startsCased (cs : List Char) : Bool :=
  match cs.dropWhile isCaseIgnorable with
  | [] => false
  | c :: _ => isCased c

/-- Lower case of the characters after `before`, which is given backwards. -/
def lowerAfter (before : List Char) : List Char → List Char
  | [] => []
  | c :: rest =>
      let mapped :=
        if c = 'Σ' then
          [if startsCased before && !startsCased rest then 'ς' else 'σ']
        else lowerChar c
      mapped ++ lowerAfter (c :: before) rest

def upper (s : String) : String :=
  String.ofList (s.toList.flatMap upperChar)

def lower (s : String) : String :=
  String.ofList (lowerAfter [] s.toList)

end LiveQuery.Text
