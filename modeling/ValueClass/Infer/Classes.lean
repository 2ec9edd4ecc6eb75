import ValueClass.Dart.ClassDecl
import ValueClass.Generate
import ValueClass.Infer.Sketch
import ValueClass.Infer.Template
import ValueClass.Json.Read
import ValueClass.Name.Dart

/-! # Classes from JSON

Sketches become classes: names are made safe, each class is written as a bare
declaration of its fields, and of several classes with the same text the first
is kept.
-/

namespace ValueClass

inductive JsonSource where
  /-- Text that is still to be read. -/
  | document (text : Text)
  | value (json : Json)

/-- What a fault of a document means for a generation. -/
def GenerateError.ofReadError (e : Json.ReadError) : GenerateError :=
  match e.fault with
  | .beyond limit => .jsonLimit limit
  | _ => .malformedJson

def JsonSource.read : JsonSource → Except GenerateError Json
  | .document text => (Json.read text).mapError .ofReadError
  | .value json => .ok json

/-- The members of the object that a source is about. -/
def JsonSource.members (source : JsonSource) : Except GenerateError (List (Text × Json)) := do
  match ObjectSketch.rootMembers? (← source.read) with
  | none => throw .unsupportedShape
  | some members => return members

namespace Infer

def fieldTemplate : List TemplatePiece :=
  [.value "indent", .text "final ", .value "field.raw_type", .text " ", .value "field.name",
   .text ";\n"]

/-- A class declaration with its fields and nothing else. -/
def classTemplate : Template :=
  [.piece (.text "class "), .piece (.value "class_name"), .piece (.text " \x7b\n"),
   .each "field" "fields" fieldTemplate, .piece (.text "\x7d")]

/-- What the class template is written with. -/
def classContext (name : Text) (fields : List (Text × Text)) (indent : Text) : TemplateContext where
  values := [("class_name", name), ("indent", indent)]
  lists := [("fields", fields.map fun (type, field) => [("raw_type", type), ("name", field)])]

/-- The text of a class declaration with its fields and nothing else. -/
def declarationText (engine : TemplateEngine) (name : Text) (fields : List (Text × Text))
    (indent : Text) : Text :=
  engine.render classTemplate (classContext name fields indent)

def typeText : TypeSketch → StateM Namer Text
  | .word name => return name
  | .object named => Namer.nameFor named .pascal
  | .list element => do return "List<" ++ (← typeText element) ++ ">"

/-- The fields of a class, from the second line on. -/
def fieldsFrom : Nat → List (Text × TypeSketch) → StateM Namer (List Dart.Field)
  | _, [] => return []
  | line, (key, type) :: rest => do
    let rawType ← typeText type
    let name ← Namer.nameFor key .preserve
    return { rawType, key, name, line } :: (← fieldsFrom (line + 1) rest)

def classOf (engine : TemplateEngine) (indent : Text) (sketch : ObjectSketch) :
    StateM Namer Dart.ClassDecl := do
  let name ← Namer.nameFor sketch.named .pascal
  let fields ← fieldsFrom 2 sketch.members
  let lines := (declarationText engine name (fields.map fun f => (f.rawType, f.name)) indent).lines
  return { header :=
    { name := some name }, firstLine := 1, lastLine := some lines.length, lines, fields }

/-- Keep the first of several classes with the same text. -/
def dropRepeats (seen : List Text) : List Dart.ClassDecl → List Dart.ClassDecl
  | [] => []
  | c :: rest =>
    if seen.contains c.content then dropRepeats seen rest
    else c :: dropRepeats (c.content :: seen) rest

def classesOf (engine : TemplateEngine) (indent : Text) :
    List ObjectSketch → StateM Namer (List Dart.ClassDecl)
  | [] => return []
  | sketch :: rest => do
    let c ← classOf engine indent sketch
    return c :: (← classesOf engine indent rest)

/-- The dates to look for under a style. -/
def dateRule (style : Style) (test : DateTest) : ObjectSketch.DateRule :=
  if style.detectsTimestamps then some test else none

def classes (style : Style) (test : DateTest) (engine : TemplateEngine) (source : JsonSource)
    (rootName : Text) : ExceptT GenerateError (StateM Namer) (List Dart.ClassDecl) := do
  let members ← source.members
  let indent ← style.indent?
  let sketches := ObjectSketch.ofDocument (dateRule style test) rootName members
  let found ← (classesOf engine indent sketches : StateM Namer _)
  return dropRepeats [] found

def freshNamer : Namer := { policy := Name.dartPolicy }

end Infer

end ValueClass
