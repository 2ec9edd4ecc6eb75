import ValueClass.Command.Console
import ValueClass.Command.Footprint

/-! # The program

The command line around the pure commands. What a command can look at is read
from the disk, the command runs on that, and what it changed is written back.
A command that asks more questions than there are replies is run again with
one reply more.
-/

namespace ValueClass.Program

def diskName (place : List Text) : String :=
  String.ofList ('/' :: Text.join ['/'] place)

def readPlace (place : List Text) : IO (Option Node) := do
  let path := (← IO.currentDir) / diskName place
  if ← path.isDir then return some .directory
  if ← path.pathExists then return some (.file (← IO.FS.readBinFile path).toList)
  return none

def readPlaces (tree : FileTree) (places : List (List Text)) : IO FileTree := do
  places.foldlM (fun tree place => do
    if place.isEmpty then return tree
    match ← readPlace place with
    | some node => return tree.insert place node
    | none => return tree) tree

/-- The entries of a directory on the disk. -/
def entriesOf (place : List Text) : IO (List (List Text)) := do
  let path := (← IO.currentDir) / diskName place
  if ← path.isDir then
    return (← path.readDir).toList.map fun entry => place ++ [entry.fileName.toList]
  return []

/-- The part of the disk that a command can look at. -/
def snapshot (cwd : List Text) (command : Command) : IO FileTree := do
  let start : FileTree := { cwd }
  let tree ← readPlaces start (FileTree.footprint cwd command.namedPaths)
  match command.targetDirectory? tree with
  | none => return tree
  | some directory =>
    let places := FileTree.placesAlong cwd directory
    let entries ← entriesOf (Package.resolve tree directory)
    let sources := entries.filter fun place =>
      ((place.getLast?).getD []).endsWith PlannedFile.ending
    readPlaces tree (places ++ sources)

/-- Ask a question on the terminal. The end of the input cancels, and an empty
    line accepts. -/
partial def prompt (question : Text) : IO Reply := do
  let output ← IO.getStdout
  output.putStr (String.ofList (question ++ " [y/n] (y): "))
  output.flush
  let line ← (← IO.getStdin).getLine
  if line.isEmpty then return .cancel
  match String.ofList (Text.trim line.toList) with
  | "" => return .accept
  | "y" => return .accept
  | "Y" => return .accept
  | "n" => return .decline
  | "N" => return .decline
  | _ =>
    output.putStrLn "Please enter Y or N"
    prompt question

/-- Run a command line with the replies so far, and with more of them for as
    long as it asks. -/
partial def converse (args : List Text) (tree : FileTree) (replies : List Reply) :
    IO (Except Breakdown Nat × Terminal) := do
  let (result, t) := Command.runLine {} args { tree, interview := { script := some replies } }
  match t.interview.asked.drop replies.length with
  | [] => return (result, t)
  | question :: _ =>
    match ← prompt question with
    | .cancel => return (result, t)
    | reply => converse args tree (replies ++ [reply])

def pauseLength : Json → Nat
  | .int n => n.toNat * 1000
  | .bool b => if b then 1000 else 0
  | .float (.finite false mantissa exponent) =>
    let (n, d) := Binary64.scale (mantissa * 1000) 1 exponent
    n / d
  | _ => 0

/-- Bring changes to the disk, with the pauses between two files. -/
def commit : List (List Text × Node) → List Json → IO Unit
  | [], _ => return ()
  | (place, .directory) :: rest, pauses => do
    IO.FS.createDirAll (diskName place)
    commit rest pauses
  | (place, .file bytes) :: rest, pauses => do
    IO.FS.writeBinFile (diskName place) ⟨bytes.toArray⟩
    match pauses with
    | [] => commit rest []
    | pause :: later => do
      IO.sleep (pauseLength pause).toUInt32
      commit rest later

/-- The wording of a failure that no message is made for. -/
def breakdownText : Breakdown → Text
  | .settings e => e.message
  | .generation e => e.message
  | .loading e => e.message
  | .writing e => e.message
  | .path e => e.message
  | .valueless key => "--" ++ key ++ " needs a value"
  | .markup _ => "what is to be shown holds markup that is not closed"

/-- Run a command that was read from the command line. -/
def run (args : List Text) (command : Command) : IO UInt32 := do
  let cwd := ((← IO.currentDir).components.filter fun part => !part.isEmpty).map String.toList
  let tree ← snapshot cwd command
  let (result, t) ← converse args tree []
  commit (tree.changesFrom t.tree) t.pauses
  for item in t.shown do
    IO.println (String.ofList item.plainText)
  match result with
  | .ok status => return status.toUInt32
  | .error cause => do
    IO.eprintln (String.ofList (breakdownText cause))
    return 1

/-- Run the command that the arguments name. -/
def start (args : List String) : IO UInt32 := do
  let args := args.map String.toList
  let usage := String.ofList Command.usage
  match Command.ofArgs args with
  | .error .help => do
    IO.println usage
    return 0
  | .error .misuse => do
    IO.eprintln usage
    return 2
  | .error (.valueless key) => do
    IO.eprintln (String.ofList (breakdownText (.valueless key)))
    return 1
  | .ok .nothing => do
    IO.println usage
    return 1
  | .ok command => run args command

end ValueClass.Program

def main (args : List String) : IO UInt32 :=
  ValueClass.Program.start args
