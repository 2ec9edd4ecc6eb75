import ValueClass.Infer.Timestamp
import ValueClass.Name.Words

/-! # Sketches

The shape of a JSON document before names are chosen: one sketch for each
object that is visited, the outer one before those it holds. An array is
looked at through its first item.
-/

namespace ValueClass

/-- The type of a member, as far as the document shows it. -/
inductive TypeSketch where
  /-- A type of the language. -/
  | word (name : Text)
  /-- The class of an object, which is named after a text. -/
  | object (named : Text)
  | list (element : TypeSketch)
  deriving Repr, DecidableEq

structure ObjectSketch where
  /-- The text that the class is named after. -/
  named : Text
  /-- The keys, in order, with their types. -/
  members : List (Text × TypeSketch)
  deriving Repr, DecidableEq

namespace ObjectSketch

/-- What is looked for in strings: nothing, or dates. -/
abbrev DateRule := Option DateTest

/-- The type of a value that has no parts. -/
def scalarWord (dates : DateRule) : Json → Text
  | .bool _ => "bool"
  | .int _ => "int"
  | .float _ => "double"
  | .str t => if (dates.map fun test => test.accepts t).getD false then "DateTime" else "String"
  | _ => "dynamic"

mutual

/-- The type of a value under a name, and the objects it leads to. The items
    of an array are named by the singular. -/
def ofValue (dates : DateRule) (named : Text) : Json → TypeSketch × List ObjectSketch
  | .obj members =>
    let (fields, nested) := ofMembers dates members
    (.object named, { named, members := fields } :: nested)
  | .arr [] => (.list (.word "dynamic"), [])
  | .arr (first :: _) =>
    let (element, nested) := ofValue dates (Name.singular named) first
    (.list element, nested)
  | value => (.word (scalarWord dates value), [])

/-- The types of the members of an object, and the objects they lead to. -/
def ofMembers (dates : DateRule) : List (Text × Json) → List (Text × TypeSketch) × List ObjectSketch
  | [] => ([], [])
  | (key, value) :: rest =>
    let (type, nested) := ofValue dates key value
    let (types, more) := ofMembers dates rest
    ((key, type) :: types, nested ++ more)

end

/-- The members of the object that a document is about: the document itself,
    or the first object of an array. -/
def rootMembers? : Json → Option (List (Text × Json))
  | .obj members => some members
  | .arr items => items.findSome? fun item =>
    match item with
    | .obj members => some members
    | _ => none
  | _ => none

/-- The sketches of a document, the root first. -/
def ofDocument (dates : DateRule) (rootName : Text) (members : List (Text × Json)) :
    List ObjectSketch :=
  (ofValue dates rootName (.obj members)).2

end ObjectSketch

end ValueClass
