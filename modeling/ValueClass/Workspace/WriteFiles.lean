import ValueClass.Infer.Files
import ValueClass.Workspace.FileTree

/-! # Writing generated files

Files are written in order. The user is asked before a file is overwritten;
anything but a yes stops the writing, and what was written stays.
-/

namespace ValueClass

inductive WriteError where
  /-- The user did not want a file to be overwritten. -/
  | stopped (path : Path)
  /-- The file system refused. -/
  | refused (error : FileError)
  /-- The pause between two files is not a number. -/
  | pauseNotNumber
  /-- The clock cannot pause for that long. -/
  | pauseRefused
  deriving Repr, DecidableEq

def WriteError.message : WriteError → Text
  | .stopped path => "Stopped before writing " ++ path.text
  | .refused error => error.message
  | .pauseNotNumber => "the pause between two files must be a number"
  | .pauseRefused => "the pause between two files is too long"

/-- A clock. Of the pauses that are longer than nothing it may refuse some. -/
structure Clock where
  /-- Whether a pause can be made. -/
  pauses : Json → Bool := fun _ => true

structure Writing where
  /-- The files as they are now. -/
  tree : FileTree
  clock : Clock := {}
  interview : Interview := {}
  /-- The paths that were written. -/
  written : List Path := []
  /-- The pauses that were made. -/
  pauses : List Json := []

/-- A step of writing. What was done outlives a failure. -/
abbrev WriteRun := ExceptT WriteError (StateM Writing)

namespace Writing

/-- The question about a file that exists. -/
def overwriteQuestion (path : Path) : Text :=
  path.text ++ " exists. Overwrite it?"

/-- Ask before a file that exists is overwritten. -/
def confirmOverwrite (path : Path) : WriteRun Unit := do
  let w ← get
  if ← (w.tree.contains path).mapError WriteError.refused then
    let (reply, interview) := Interview.ask (overwriteQuestion path) w.interview
    set { w with interview }
    if reply != .accept then throw (.stopped path)

def writeOne (path : Path) (content : Text) : WriteRun Unit := do
  let w ← get
  match (FileTree.writeText path content).run w.tree with
  | (.error e, tree) => do
    set { w with tree }
    throw (.refused e)
  | (.ok (), tree) => set { w with tree, written := w.written ++ [path] }

/-- Whether a pause is longer than nothing. -/
def isPause? : Json → Except WriteError Bool
  | .int n => .ok (0 < n)
  | .bool b => .ok b
  | .float x => .ok x.isPositive
  | _ => .error .pauseNotNumber

def pause (delay : Json) : WriteRun Unit := do
  if ← isPause? delay then
    if !(← get).clock.pauses delay then throw .pauseRefused
    modify fun w => { w with pauses := w.pauses ++ [delay] }

/-- Write files into a directory, with a pause between two of them. -/
def writeAll (directory : Path) (delay : Json) : List GeneratedFile → WriteRun Unit
  | [] => return ()
  | file :: rest => do
    let path := directory.append (.ofText file.name)
    confirmOverwrite path
    writeOne path file.content
    if !rest.isEmpty then pause delay
    writeAll directory delay rest

end Writing

end ValueClass
