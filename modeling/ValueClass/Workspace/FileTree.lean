import ValueClass.Text.Order
import ValueClass.Workspace.Path
import ValueClass.Workspace.Utf8

/-! # Files and directories

A tree of files as a value. Every component of a path but the last must be a
directory that exists; reading and writing say what stood in the way.
-/

namespace ValueClass

/-- Why the file system refuses an operation. -/
inductive FileFault where
  /-- Something does not exist. -/
  | noEntry
  /-- Something exists already. -/
  | alreadyExists
  /-- A directory was expected. -/
  | notDirectory
  | isDirectory
  /-- A name or the whole path has too many bytes. -/
  | nameTooLong
  /-- The path holds a zero character, which ends a path for the system. -/
  | zeroInPath
  deriving Repr, DecidableEq

/-- The number and the wording of a fault. -/
def FileFault.wording : FileFault → Text
  | .noEntry => "[Errno 2] No such file or directory"
  | .alreadyExists => "[Errno 17] File exists"
  | .notDirectory => "[Errno 20] Not a directory"
  | .isDirectory => "[Errno 21] Is a directory"
  | .nameTooLong => "[Errno 36] File name too long"
  | .zeroInPath => "embedded null byte"

/-- A refused operation and the path it was about. -/
structure FileError where
  fault : FileFault
  path : Path
  deriving Repr, DecidableEq

/-- The message for a refused operation. -/
def FileError.message (e : FileError) : Text :=
  e.fault.wording ++ ": " ++ e.path.text.quoted

inductive Node where
  | file (bytes : List UInt8)
  | directory
  deriving Repr, DecidableEq

/-- A tree of files. Places are given from the root; the root itself is always
    a directory. -/
structure FileTree where
  /-- The directory that relative paths start from. -/
  cwd : List Text := []
  /-- What stands at each place. -/
  nodes : List (List Text × Node) := []
  deriving Repr, DecidableEq

/-- Some work on files. What was done outlives a failure. -/
abbrev FileRun := ExceptT FileError (StateM FileTree)

namespace FileTree

def node? (tree : FileTree) (place : List Text) : Option Node :=
  if place.isEmpty then some .directory else tree.nodes.lookup place

def put (place : List Text) (node : Node) : List (List Text × Node) → List (List Text × Node)
  | [] => [(place, node)]
  | (other, old) :: rest =>
    if other == place then (place, node) :: rest else (other, old) :: put place node rest

/-- The tree with something put at a place. -/
def insert (tree : FileTree) (place : List Text) (node : Node) : FileTree :=
  { tree with nodes := put place node tree.nodes }

/-- The bytes that the name of an entry can have. -/
def maxNameBytes : Nat := 255

def maxPathBytes : Nat := 4095

/-- Go from a directory into one of its entries, or up. -/
def enter (tree : FileTree) (place : List Text) (part : Text) : Except FileFault (List Text) :=
  match tree.node? place with
  | none => .error .noEntry
  | some (.file _) => .error .notDirectory
  | some .directory =>
    if part = ".." then .ok place.dropLast
    else if maxNameBytes < (Utf8.encode part).length then .error .nameTooLong
    else .ok (place ++ [part])

/-- The place that a path leads to. The last component need not exist. -/
def locate (tree : FileTree) (p : Path) : Except FileFault (List Text) :=
  if p.text.contains (Char.ofNat 0) then .error .zeroInPath
  else if maxPathBytes < (Utf8.encode p.text).length then .error .nameTooLong
  else p.parts.foldlM tree.enter (if p.isAbsolute then [] else tree.cwd)

def stat (tree : FileTree) (p : Path) : Except FileFault Node := do
  match tree.node? (← tree.locate p) with
  | some node => return node
  | none => throw .noEntry

/-- Whether a path leads to something of a kind. That there is nothing on the
    way is an answer too, but a name that is too long is not looked up. -/
def test (tree : FileTree) (p : Path) (kind : Node → Bool) : Except FileError Bool :=
  match tree.stat p with
  | .ok node => .ok (kind node)
  | .error .nameTooLong => .error ⟨.nameTooLong, p⟩
  | .error _ => .ok false

def contains (tree : FileTree) (p : Path) : Except FileError Bool :=
  tree.test p fun _ => true

/-- Whether a path leads to a directory. -/
def isDirectory (tree : FileTree) (p : Path) : Except FileError Bool :=
  tree.test p fun node => node == .directory

def isFile (tree : FileTree) (p : Path) : Except FileError Bool :=
  tree.test p fun node => node != .directory

def read (tree : FileTree) (p : Path) : Except FileError (List UInt8) :=
  match tree.stat p with
  | .ok (.file bytes) => .ok bytes
  | .ok .directory => .error ⟨.isDirectory, p⟩
  | .error fault => .error ⟨fault, p⟩

/-- Write a file into a directory that exists. -/
def write (tree : FileTree) (p : Path) (bytes : List UInt8) : Except FileError FileTree :=
  match tree.locate p with
  | .error fault => .error ⟨fault, p⟩
  | .ok place =>
    match tree.node? place with
    | some .directory => .error ⟨.isDirectory, p⟩
    | _ => .ok (tree.insert place (.file bytes))

/-- Make a directory in a directory that exists. -/
def makeDirectory (tree : FileTree) (p : Path) : Except FileError FileTree :=
  match tree.locate p with
  | .error fault => .error ⟨fault, p⟩
  | .ok place =>
    match tree.node? place with
    | some _ => .error ⟨.alreadyExists, p⟩
    | none => .ok (tree.insert place .directory)

def ensureOne (p : Path) : FileRun Unit := do
  let tree ← get
  match tree.makeDirectory p with
  | .ok made => set made
  | .error e => if !(← tree.isDirectory p) then throw e

/-- Make a directory and those above it, as far as they do not exist. `depth`
    bounds the number of directories above. -/
def ensureAll : Nat → Path → FileRun Unit
  | 0, p => ensureOne p
  | depth + 1, p => do
    let tree ← get
    match tree.makeDirectory p with
    | .ok made => set made
    | .error e =>
      if e.fault == .noEntry && !p.parts.isEmpty then
        ensureAll depth p.parent
        ensureOne p
      else if !(← tree.isDirectory p) then throw e

/-- Write a text file, making directories as needed. -/
def writeText (p : Path) (content : Text) : FileRun Unit := do
  ensureAll p.parent.parts.length p.parent
  set (← (← get).write p (Utf8.encode content))

/-- Put a file into a list that is ordered by names. -/
def insertFile (file : Text × List UInt8) : List (Text × List UInt8) → List (Text × List UInt8)
  | [] => [file]
  | other :: rest =>
    if textLe file.1 other.1 then file :: other :: rest else other :: insertFile file rest

/-- The files below a directory, by their paths from there, in order. -/
def filesBelow (tree : FileTree) (directory : List Text) : List (Text × List UInt8) :=
  let files := tree.nodes.filterMap fun (place, node) =>
    match node with
    | .file bytes =>
      if directory.isPrefixOf place then
        some (Text.join "/" (place.drop directory.length), bytes)
      else none
    | .directory => none
  files.foldr insertFile []

end FileTree

end ValueClass
