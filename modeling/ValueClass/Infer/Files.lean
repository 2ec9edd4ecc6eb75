import ValueClass.Dart.Imports
import ValueClass.Infer.Classes
import ValueClass.Name.Stem

/-! # Files from JSON

The files that inferred classes are written to: one for each class, and then
they import each other, or one for all of them.
-/

namespace ValueClass

structure GeneratedFile where
  /-- The name, without a directory. -/
  name : Text
  content : Text
  /-- Whether the file takes the place of the buffer that is edited. -/
  isCurrent : Bool := false
  deriving Repr, DecidableEq

/-- A class with the file that it goes to. -/
structure PlannedFile where
  decl : Dart.ClassDecl
  stem : Text
  /-- The imports of classes in other files. -/
  imports : List Text
  deriving Repr, DecidableEq

namespace PlannedFile

def ending : Text := ".dart"

def fileName (file : PlannedFile) : Text :=
  file.stem ++ ending

/-- Give every class a stem that no class before it has. -/
def assignStems (taken : List Text) : List Dart.ClassDecl → List (Dart.ClassDecl × Text)
  | [] => []
  | c :: rest =>
    let stem := Name.stem c.name taken
    (c, stem) :: assignStems (stem :: taken) rest

/-- The stem of the only class with a name. -/
def stemOf? (assigned : List (Dart.ClassDecl × Text)) (name : Text) : Option Text :=
  match assigned.filter fun (c, _) => c.name == name with
  | [(_, stem)] => some stem
  | _ => none

/-- Add a text to a list, unless it is there. -/
def addNew (ts : List Text) (t : Text) : List Text :=
  if ts.contains t then ts else ts ++ [t]

/-- The imports that a class needs: its field types, where they mean exactly
    one other class. -/
def importsFor (assigned : List (Dart.ClassDecl × Text)) (c : Dart.ClassDecl) : List Text :=
  let stems := c.fields.filterMap fun f =>
    let target := f.type.baseText
    if target == c.name then none else stemOf? assigned target
  (stems.map fun stem => Dart.importLine (stem ++ ending)).foldl addNew []

/-- The files of some classes, in order. Every entry of the list is a class of its own, also
    one that equals another. -/
def plan (classes : List Dart.ClassDecl) : List PlannedFile :=
  let assigned := assignStems [] classes
  assigned.map fun (decl, stem) => { decl, stem, imports := importsFor assigned decl }

end PlannedFile

namespace Infer

/-- The question about the layout of files. -/
def separateQuestion : Text := "Do you wish to separate the JSON into multiple files?"

/-- Whether each class gets its own file. -/
def decideSeparate (policy : SeparatePolicy) (count : Nat) : Run Bool :=
  match policy with
  | .always => return true
  | .never => return false
  | .ask => if count == 1 then return false else Run.confirm separateQuestion

/-- The content of a file: its imports and its classes. -/
def compose (imports : Dart.Imports) (drafts : List Dart.Draft) : Text :=
  let block := if imports.hasImports then [imports.formatted] else []
  Text.tidy (Text.join "\n\n" (block ++ drafts.map Dart.Draft.render))

/-- Write the members of some classes and the file that holds them. -/
def fileContent (s : Dart.Surroundings) (imports : Dart.Imports) (classes : List Dart.ClassDecl) :
    Text :=
  let (imports, drafts) := Dart.writeClasses s none imports (classes.map fun decl => { decl })
  compose imports drafts

def separateFiles (s : Dart.Surroundings) (packageName : Option Text)
    (classes : List Dart.ClassDecl) : List GeneratedFile :=
  (PlannedFile.plan classes).map fun file =>
    let imports := file.imports.foldl Dart.Imports.push (Dart.Imports.ofText [] packageName)
    { name := file.fileName, content := fileContent s imports [file.decl] }

/-- One file for all classes, named after the first. -/
def singleFile (s : Dart.Surroundings) (packageName : Option Text) (rootName : Text)
    (classes : List Dart.ClassDecl) : GeneratedFile :=
  let first := (classes.head?.map fun c => c.name).getD []
  let named := if first.isEmpty then rootName else first
  { name := Name.stem named [] ++ PlannedFile.ending
    content := fileContent s (Dart.Imports.ofText [] packageName) classes }

/-- Mark the first file as the current one. -/
def markFirst : List GeneratedFile → List GeneratedFile
  | [] => []
  | file :: rest => { file with isCurrent := true } :: rest

end Infer

/-- What is to be generated for a JSON document. -/
structure JsonRequest where
  source : JsonSource
  /-- The text that the outermost class is named after. -/
  rootName : Text
  /-- The decisions of the owner. -/
  style : Style := {}
  /-- What is known about the project. -/
  project : Project := {}
  /-- The layout of files, where it is given. -/
  separate : Option Bool := none
  /-- How strings are tested for dates. -/
  dates : DateTest := .calendar
  /-- How declarations are written. -/
  engine : TemplateEngine := .plain

/-- The files that were generated for a document. -/
structure GeneratedFiles where
  /-- The files; the first takes the place of the current buffer. -/
  files : List GeneratedFile
  /-- Warnings about classes without members. -/
  warnings : List Text
  /-- The names of the classes. -/
  classes : List Text
  /-- Whether each class has its own file. -/
  separate : Bool
  deriving Repr, DecidableEq

def GeneratedFiles.code (g : GeneratedFiles) : Text :=
  (g.files.head?.map (·.content)).getD []

/-- The facts about a generation that are shown to the user. -/
def GeneratedFiles.metadata (g : GeneratedFiles) : List (Text × Json) :=
  [("language", .str "dart"),
   ("class_count", .int g.classes.length),
   ("classes", .arr (g.classes.map .str)),
   ("separate", .bool g.separate)]

/-- Generate classes with their members for a JSON document. -/
def JsonRequest.generate (request : JsonRequest) : Run GeneratedFiles := do
  let inferred :=
    (Infer.classes request.style request.dates request.engine request.source request.rootName).run
  let classes ← (inferred Infer.freshNamer).1
  if classes.isEmpty then throw .noClasses
  let separate ←
    match request.separate with
    | some separate => pure separate
    | none => Infer.decideSeparate request.style.separate classes.length
  let project := request.project.resolve []
  let surroundings : Dart.Surroundings :=
    { style := request.style
      indent := ← request.style.indent?
      flutter := project.flavor == .flutter
      fromJson := true }
  let files :=
    if separate then Infer.separateFiles surroundings project.packageName classes
    else [Infer.singleFile surroundings project.packageName request.rootName classes]
  return {
    files := Infer.markFirst files
    warnings := classes.filterMap Dart.warning?
    classes := classes.map fun c => c.name
    separate }

end ValueClass
