import ValueClass.Dart.Scan
import ValueClass.Edit.Plan
import ValueClass.Interview
import ValueClass.Json.Basic
import ValueClass.Member.Write

/-! # Generating members

The whole way for a buffer: find its classes, write their members, let the
user review what would be replaced, and plan the edits.
-/

namespace ValueClass

inductive GenerateError where
  /-- No class was found that members can be written for. -/
  | noClasses
  /-- The user cancelled at a question. -/
  | cancelled (question : Text)
  /-- The JSON text cannot be read. -/
  | malformedJson
  /-- The JSON value holds no object. -/
  | unsupportedShape
  /-- The JSON text goes beyond a limit. -/
  | jsonLimit (limit : Json.Limit)
  /-- The indentation cannot be used. -/
  | indent (fault : IndentFault)
  deriving Repr, DecidableEq

def GenerateError.message : GenerateError → Text
  | .noClasses => "No convertable dart classes were detected!"
  | .cancelled question => "Cancelled: " ++ question
  | .malformedJson => "The provided JSON is malformed or couldn't be parsed!"
  | .unsupportedShape =>
    "Primitive JSON arrays are not supported! Please serialize them directly."
  | .jsonLimit limit => limit.wording
  | .indent fault => fault.wording

/-- Whether an error is about what the user wrote. For the others no message
    is made. -/
def GenerateError.isReported : GenerateError → Bool
  | .jsonLimit _ | .indent _ => false
  | _ => true

/-- A run that may ask the user and may fail. The questions outlive a
    failure. -/
abbrev Run := ExceptT GenerateError (StateM Interview)

/-- Ask whether to go on with something. -/
def Run.confirm (question : Text) : Run Bool := do
  match ← (Interview.ask question : StateM Interview Reply) with
  | .accept => return true
  | .decline => return false
  | .cancel => throw (.cancelled question)

def Style.indent? (style : Style) : Except GenerateError Text :=
  match style.indentation with
  | .spaces count => .ok (List.replicate count ' ')
  | .unusable fault => .error (.indent fault)

namespace Dart

def memberQuestion (member className : Text) : Text :=
  "Do you want to override " ++ member ++ " in " ++ className ++ "?"

/-- The question about all members of a class. -/
def classQuestion (className : Text) : Text :=
  "Do you want to override changes in " ++ className ++
    "? Custom changes to existing members will be lost."

/-- The replacements that the user accepts one by one. -/
def reviewEach (className : Text) : List Replacement → Run (List Replacement)
  | [] => return []
  | r :: rest => do
    let accepted ← Run.confirm (memberQuestion r.name className)
    let kept ← reviewEach className rest
    return if accepted then r :: kept else kept

/-- Let the user review the replacements of a class. -/
def reviewDraft (each : Bool) (d : Draft) : Run Draft := do
  if d.replacements.isEmpty then return d
  if each then
    return { d with replacements := ← reviewEach d.decl.name d.replacements }
  if ← Run.confirm (classQuestion d.decl.name) then return d
  return { d with replacements := [] }

/-- Let the user review all classes in order. -/
def review (each : Bool) : List Draft → Run (List Draft)
  | [] => return []
  | d :: rest => do
    let reviewed ← reviewDraft each d
    return reviewed :: (← review each rest)

/-- The warning for a class that is left out. -/
def warning? (c : ClassDecl) : Option Text :=
  c.issue?.map fun issue => c.name ++ ": " ++ issue.message

end Dart

/-- What is to be generated for a buffer. -/
structure Request where
  /-- The decisions of the owner. -/
  style : Style := {}
  /-- What is known about the project. -/
  project : Project := {}
  /-- The only member to write. -/
  selector : Option MemberKind := none
  /-- The only class to write for. -/
  className : Option Text := none
  deriving Repr, DecidableEq

structure Generated where
  code : Text
  /-- Warnings about classes that were left out. -/
  warnings : List Text
  /-- The edits that were applied. -/
  edits : List LineEdit
  /-- The flavor that was found out. -/
  flavor : Flavor
  /-- The classes that were written for. -/
  classes : List Text
  /-- The only member that was written. -/
  selector : Option MemberKind
  deriving Repr, DecidableEq

/-- The facts about a generation that are shown to the user. -/
def Generated.metadata (g : Generated) : List (Text × Json) :=
  [("language", .str "dart"),
   ("flavor", .str g.flavor.label),
   ("class_count", .int g.classes.length),
   ("classes", .arr (g.classes.map .str)),
   ("selector", (g.selector.map fun kind => Json.str kind.label).getD .null)]

/-- Generate members for the classes of a buffer. -/
def Request.generate (request : Request) (text : Text) : Run Generated := do
  let read := Dart.Imports.ofText text request.project.packageName
  let project := request.project.resolve read.values
  let found := (Dart.scan text).filter fun c =>
    match request.className with
    | some name => c.header.name == some name
    | none => true
  let valid := found.filter fun c => c.isValid
  if valid.isEmpty then throw .noClasses
  let surroundings : Dart.Surroundings :=
    { style := request.style
      indent := ← request.style.indent?
      flutter := project.flavor == .flutter }
  let (imports, drafts) :=
    Dart.writeClasses surroundings request.selector read (valid.map fun decl => { decl })
  let reviewed ← Dart.review request.style.reviewsEachMember drafts
  let edits := Dart.planEdits reviewed imports
  return {
    code := LineEdit.applyAll edits text
    warnings := found.filterMap Dart.warning?
    edits
    flavor := project.flavor
    classes := valid.map (·.name)
    selector := request.selector }

/-- What a generation comes to. One that failed leaves nothing but its failure. -/
structure Outcome where
  code : Text := []
  /-- Warnings about classes that were left out. -/
  warnings : List Text := []
  /-- The facts that are shown to the user. -/
  metadata : List (Text × Json) := []
  /-- The edits that were applied. -/
  edits : List LineEdit := []
  /-- Why nothing was generated. -/
  failure : Option GenerateError := none
  deriving Repr

namespace Outcome

def ofGenerated (g : Generated) : Outcome :=
  { code := g.code, warnings := g.warnings, metadata := g.metadata, edits := g.edits }

def failed (e : GenerateError) : Outcome :=
  { failure := some e }

def isCancelled (o : Outcome) : Bool :=
  match o.failure with
  | some (.cancelled _) => true
  | _ => false

end Outcome

/-- Generate members. A failure that a message is made for is an outcome, too. -/
def Request.outcome (request : Request) (text : Text) : Run Outcome :=
  tryCatch (Outcome.ofGenerated <$> request.generate text) fun e =>
    if e.isReported then return .failed e else throw e

end ValueClass
