import ValueClass.Dart.Line
import ValueClass.Text.Order

/-! # The import block

The import, export and part lines at the top of a buffer. Code that is added
asks for the libraries it needs, and the block is written back in groups:
libraries of the language, other packages, the own package, relative paths,
exports and parts, each group sorted and followed by one empty line.
-/

namespace ValueClass.Dart

/-- Where a directive goes in the written block. -/
inductive ImportGroup where
  /-- A library of the language. -/
  | builtin
  /-- A library of another package. -/
  | external
  /-- A library of the own package, by its full path. -/
  | project
  /-- A library by a relative path. -/
  | relative
  | exported
  | part
  deriving Repr, DecidableEq

/-- The groups in the order they are written. -/
def ImportGroup.all : List ImportGroup :=
  [.builtin, .external, .project, .relative, .exported, .part]

/-- The group of a directive in a package. -/
def ImportGroup.of (packageName : Option Text) (line : Text) : ImportGroup :=
  let own := match packageName with
    | some (c :: name) => line.has ("package:" ++ (c :: name) ++ "/")
    | _ => false
  if line.startsWith "export" then .exported
  else if line.startsWith "part" then .part
  else if line.has "'dart:" || line.has "\"dart:" then .builtin
  else if own then .project
  else if line.has "package:" then .external
  else .relative

/-- Whether a line is an import, export or part directive. -/
def isDirective (line : Text) : Bool :=
  let word := line.trim.firstWord
  word = "import" || word = "export" || word = "part"

/-- The directive that imports a library. A text that starts with `import` is
    one already. -/
def importLine (path : Text) : Text :=
  if path.startsWith "import" then path else "import '" ++ path ++ "';"

/-- The directives of a buffer. Lines are counted from zero. -/
structure Imports where
  source : Text := []
  /-- The package that the buffer belongs to. -/
  packageName : Option Text := none
  /-- The directives, old ones first. -/
  values : List Text := []
  /-- The lines of the old directives as they stand in the buffer. -/
  written : List Text := []
  /-- The first and the last line of the old directives. -/
  block : Option (Nat × Nat) := none
  /-- Where a block goes when there is none. -/
  insertLine : Nat := 0
  deriving Repr, DecidableEq

namespace Imports

def readDirective (imports : Imports) (lineNo : Nat) (line : Text) : Imports :=
  { imports with
    values := imports.values ++ [line.trim]
    written := imports.written ++ [line]
    block := some ((imports.block.map (·.1)).getD lineNo, lineNo) }

/-- Read directives from a line on. Comments and one library line may come
    before the first directive; any other line ends the block. -/
def readFrom (imports : Imports) (seenLibrary : Bool) : Nat → List Text → Imports
  | _, [] => imports
  | lineNo, line :: rest =>
    let trimmed := line.trim
    if isDirective line then (imports.readDirective lineNo line).readFrom seenLibrary
      (lineNo + 1) rest
    else if trimmed.isEmpty then imports.readFrom seenLibrary (lineNo + 1) rest
    else
      let isLibrary := trimmed.firstWord = "library" && !seenLibrary
      if imports.values.isEmpty && (Line.isComment trimmed || isLibrary) then
        readFrom { imports with insertLine := lineNo + 1 } (seenLibrary || isLibrary)
          (lineNo + 1) rest
      else imports
termination_by _ ls => ls.length

/-- The directives at the top of a buffer. -/
def ofText (text : Text) (packageName : Option Text) : Imports :=
  readFrom { source := text, packageName } false 0 text.lines

def hasImports (imports : Imports) : Bool :=
  !imports.values.isEmpty

/-- The old directives as they stand in the buffer. -/
def raw (imports : Imports) : Text :=
  Text.unlines imports.written

def group (imports : Imports) (g : ImportGroup) : List Text :=
  sortDistinct (imports.values.filter fun line => ImportGroup.of imports.packageName line == g)

/-- The text without line feeds at its end. -/
def dropFinalLineFeeds (t : Text) : Text :=
  (t.reverse.dropWhile (· == '\n')).reverse

def formatted (imports : Imports) : Text :=
  let groups := (ImportGroup.all.map imports.group).filter fun g => !g.isEmpty
  dropFinalLineFeeds (Text.unlines (groups.flatMap fun g => g ++ [[]]))

/-- Whether the block has to be written anew. -/
def changed (imports : Imports) : Bool :=
  !Text.sameInk imports.raw imports.formatted

def includes (imports : Imports) (line : Text) : Bool :=
  imports.values.contains line

def push (imports : Imports) (line : Text) : Imports :=
  { imports with values := imports.values ++ [line] }

/-- Whether one of the libraries is imported. -/
def hasAny (imports : Imports) (paths : List Text) : Bool :=
  paths.any fun path => imports.source.has (importLine path) || imports.includes (importLine path)

/-- Whether a library still has to be imported: neither it nor a library that
    re-exports it is there. -/
def lacks (imports : Imports) (path : Text) (umbrellas : List Text) : Bool :=
  !(imports.includes (importLine path) || imports.hasAny umbrellas)

/-- Import a library where it is lacking. -/
def require (imports : Imports) (path : Text) (umbrellas : List Text) : Imports :=
  if imports.lacks path umbrellas then imports.push (importLine path) else imports

end Imports

end ValueClass.Dart
