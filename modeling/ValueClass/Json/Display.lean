import ValueClass.Json.Basic
import ValueClass.Number.Shortest
import ValueClass.Text.Quoted

/-! # Values in messages

How messages and tables show a value: quoted strings, `None`, `True` and
`False`, lists in brackets and members in braces.
-/

namespace ValueClass.Json

def shownSpelling : Binary64.Spelling := ⟨"nan", "inf"⟩

mutual

def shown : Json → Text
  | .null => "None"
  | .bool true => "True"
  | .bool false => "False"
  | .int n => Text.ofInt n
  | .float x => x.text shownSpelling
  | .str t => t.quoted
  | .arr items => "[" ++ Text.join ", " (shownItems items) ++ "]"
  | .obj members => "\x7b" ++ Text.join ", " (shownMembers members) ++ "\x7d"

/-- The items of a list, each as a message shows it. -/
def shownItems : List Json → List Text
  | [] => []
  | item :: items => shown item :: shownItems items

/-- The members of an object, each as a message shows it. -/
def shownMembers : List (Text × Json) → List Text
  | [] => []
  | (name, value) :: members => (Text.quoted name ++ ": " ++ shown value) :: shownMembers members

end

/-- The value as a table cell shows it: a string stands without quotes. -/
def plain : Json → Text
  | .str t => t
  | value => shown value

end ValueClass.Json
