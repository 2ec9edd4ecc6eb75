import ValueClass.Json.Basic
import ValueClass.Number.Shortest
import ValueClass.Text.Quoted

/-! # Writing JSON

Two written forms: compact on one line, and indented by two spaces with one
item to a line. Characters outside ASCII are written as they are.
-/

namespace ValueClass.Json

def numberSpelling : Binary64.Spelling := ⟨"NaN", "Infinity"⟩

def stringChar (c : Char) : Text :=
  if c == '"' then "\\\""
  else if c == '\\' then "\\\\"
  else if c == '\n' then "\\n"
  else if c == '\r' then "\\r"
  else if c == '\t' then "\\t"
  else if c.toNat == 8 then "\\b"
  else if c.toNat == 12 then "\\f"
  else if c.toNat < 0x20 then "\\u" ++ Text.hex 4 c.toNat
  else [c]

def stringText (t : Text) : Text :=
  '"' :: (t.flatMap stringChar ++ ['"'])

/-- The text of a value that has no parts. -/
def scalarText : Json → Text
  | .null => "null"
  | .bool true => "true"
  | .bool false => "false"
  | .int n => Text.ofInt n
  | .float x => x.text numberSpelling
  | .str t => stringText t
  | .arr _ => "[]"
  | .obj _ => "\x7b\x7d"

/-- How a written form separates what it nests: the text in front of an item
    at a depth, the text in front of a closing bracket, and the text behind a
    name. -/
structure Form where
  /-- Stands before every item of a list at the given depth. -/
  lead : Nat → Text
  /-- Stands between two items. -/
  comma : Text
  /-- Stands between a name and its value. -/
  colon : Text

def Form.compact : Form := ⟨fun _ => [], ",", ":"⟩

/-- One item to a line, two spaces for each level. -/
def Form.indented : Form := ⟨fun depth => '\n' :: List.replicate (2 * depth) ' ', ",", ": "⟩

mutual

def textAt (form : Form) (depth : Nat) : Json → Text
  | .arr (item :: items) =>
    "[" ++ itemsAt form (depth + 1) (item :: items) ++ form.lead depth ++ "]"
  | .obj (member :: members) =>
    "\x7b" ++ membersAt form (depth + 1) (member :: members) ++ form.lead depth ++ "\x7d"
  | value => scalarText value

/-- The items of an array with what separates them. -/
def itemsAt (form : Form) (depth : Nat) : List Json → Text
  | [] => []
  | [item] => form.lead depth ++ textAt form depth item
  | item :: items =>
    form.lead depth ++ textAt form depth item ++ form.comma ++ itemsAt form depth items

/-- The members of an object with what separates them. -/
def membersAt (form : Form) (depth : Nat) : List (Text × Json) → Text
  | [] => []
  | [(name, value)] => form.lead depth ++ stringText name ++ form.colon ++ textAt form depth value
  | (name, value) :: members =>
    form.lead depth ++ stringText name ++ form.colon ++ textAt form depth value ++ form.comma ++
      membersAt form depth members

end

def compact (value : Json) : Text :=
  textAt .compact 0 value

def indented (value : Json) : Text :=
  textAt .indented 0 value

end ValueClass.Json
