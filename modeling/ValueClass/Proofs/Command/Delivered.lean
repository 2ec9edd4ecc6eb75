import ValueClass.Proofs.Command.Edited
import ValueClass.Proofs.Infer.FileNames
import ValueClass.Proofs.Infer.Opening

/-! # What generating classes from JSON does to the files

Files are written only after the document, the settings and the project were read and the whole
generation succeeded. They are written in order, and a run that ends early leaves those that it
has written; no other place holds anything new but a directory.
-/

namespace ValueClass

namespace Command

open CommandRun
open FileTree (Laid)
open Package (resolve)
open Writing (target)

variable {outside : Outside} {t : Terminal} {file url outputDir : Text}
  {name separate : Option Text}
  {detectTimestamps : Bool} {options : CommonOptions}

/-! ## Up to the writing -/

/-- What a document is generated by: its text, the settings and the project. -/
structure Document where
  text : Text
  settings : Settings
  project : Project

/-- The request for the classes of a document. -/
def Document.request (document : Document) (outside : Outside) (rootName : Text) : JsonRequest where
  source := .document document.text
  rootName
  style := document.settings.style
  project := document.project
  dates := outside.dates
  engine := outside.engine

/-- The generation for a document. Without a name it only ever fails. -/
def infer (outside : Outside) (name : Option Text) (assumeYes : Bool) (document : Document) :
    CommandRun (Except GenerateError GeneratedFiles) :=
  match name with
  | none => generateUnnamed document.text
  | some rootName => talking assumeYes (document.request outside rootName).generate

/-- Some of the files that were to be written are, one after the other. -/
structure Delivered (before after : FileTree) (directory : Path) (interview : Interview)
    (files first : List GeneratedFile) : Prop where
  /-- They are the first ones. -/
  start : first <+: files
  /-- Each holds its content. -/
  holds : ∀ file ∈ first, after.read (target directory file) = .ok (Utf8.encode file.content)
  /-- Elsewhere there are at most new directories on the way to the files. -/
  elsewhere : ∀ q, (∀ file ∈ first, q ≠ resolve before (target directory file)) →
    after.node? q = before.node? q ∨
    before.node? q = none ∧ after.node? q = some .directory ∧
      ∃ file ∈ files, q ∈ before.way (target directory file).parent
  /-- What stood in the place of one in its turn was overwritten after a yes only. -/
  accepted : ∀ k < (Writing.questions directory before first).length, interview.reply k = .accept

def closing (written : List Path) : Except WriteError Unit → CommandRun Nat
  | .ok () => do
    showWritten written
    return 0
  | .error (.stopped path) => do
    warn (WriteError.stopped path).message
    showWritten written
    return 1
  | .error (.refused e) => refuse e
  | .error .pauseNotNumber => throw (.broken (.writing .pauseNotNumber))
  | .error .pauseRefused => throw (.broken (.writing .pauseRefused))

theorem target_fileName (directory : Path) {file : GeneratedFile}
    (named : PlannedFile.IsFileName file.name) :
    target directory file = { directory with parts := directory.parts ++ [file.name] } := by
  rw [target, Path.ofText_fileName named]
  rfl

theorem resolve_fileName (tree : FileTree) (directory : Path) {file : GeneratedFile}
    (named : PlannedFile.IsFileName file.name) :
    resolve tree (target directory file) = resolve tree directory ++ [file.name] := by
  have down : file.name ≠ ".." := by
    intro up
    have long := named.length
    rw [up] at long
    exact absurd long (by decide)
  rw [target_fileName directory named]
  show (directory.parts ++ [file.name]).foldl Package.stepInto _ = _
  rw [List.foldl_concat, Package.stepInto, if_neg down]
  rfl

structure Inference where
  files : List GeneratedFile
  /-- The pause between two of them. -/
  delay : Json
  /-- The interview that goes on with questions about overwriting. -/
  interview : Interview

theorem Delivered.none (tree : FileTree) (directory : Path) (interview : Interview)
    (files : List GeneratedFile) : Delivered tree tree directory interview files [] :=
  ⟨List.nil_prefix, nofun, fun _ _ => .inl rfl, fun k bound => absurd bound (Nat.not_lt_zero k)⟩

/-- Files that are ready were generated, under the name that is given. -/
structure Ready (outside : Outside) (name : Option Text) (ready : Inference) (g : GeneratedFiles) :
    Prop where
  /-- They are the generated ones. -/
  files : ready.files = g.files
  /-- They were generated for a document. -/
  returned : ∃ (document : Document) (rootName : Text) (before after : Interview),
    name = some rootName ∧
    (document.request outside rootName).generate.Returns before g after

theorem Ready.inside {ready : Inference} {g : GeneratedFiles} {rootName : Text}
    (known : Ready outside name ready g) (given : name = some rootName)
    (named : Name.NamesClass rootName) (tree : FileTree) (directory : Path) :
    ∀ f ∈ ready.files, resolve tree (target directory f) = resolve tree directory ++ [f.name] := by
  intro f member
  obtain ⟨document, root, before, after, same, returned⟩ := known.returned
  cases given.symm.trans same
  rw [known.files] at member
  obtain ⟨-, plain | ⟨unnamed, -⟩⟩ := JsonRequest.names_generated returned
  · exact resolve_fileName _ _ (plain f member)
  · exact absurd unnamed (Name.className_ne_nil_iff.mpr named)

end Command

end ValueClass
