import ValueClass.Text.Blank
import ValueClass.Workspace.FileTree
import ValueClass.Workspace.Url

/-! # Loading text

Text from a file or from the reply to a request, and the package name from the
description file that is nearest to a place.
-/

namespace ValueClass

inductive HttpReply where
  /-- An answer with its status. -/
  | answered (status : Int) (body : Text)
  | timedOut
  | unreachable
  /-- A failure by status, without the answer that had it. -/
  | statusLost
  | failed (reason : Text)
  deriving Repr, DecidableEq

inductive LoadError where
  /-- Neither a file nor an address is given. -/
  | noSource
  /-- Both a file and an address are given. -/
  | twoSources
  /-- The file does not exist. -/
  | missing (path : Text)
  /-- The file cannot be read. -/
  | unreadable (path reason : Text)
  /-- The address has no scheme or no host. -/
  | invalidUrl (url : Text)
  /-- The host of the address is malformed. -/
  | malformedHost (url : Text)
  /-- The request took too long. -/
  | timeout (url : Text)
  | connection (url : Text)
  | badStatus (status : Int) (url : Text)
  /-- The answer is an error of unknown status. -/
  | statusLost (url : Text)
  | requestFailed (url reason : Text)
  /-- The file system refused the path. -/
  | refused (error : FileError)
  deriving Repr, DecidableEq

def LoadError.message : LoadError → Text
  | .noSource => "Either file_path or url must be provided"
  | .twoSources => "Cannot specify both file_path and url"
  | .missing path => "File not found: " ++ path
  | .unreadable path reason => "Error reading file " ++ path ++ ": " ++ reason
  | .invalidUrl url => "Invalid URL: " ++ url
  | .malformedHost url => "Invalid host: " ++ url
  | .timeout url => "Request timeout for URL: " ++ url
  | .connection url => "Connection error for URL: " ++ url
  | .badStatus status url => "HTTP error " ++ Text.ofInt status ++ " for URL: " ++ url
  | .statusLost url => "HTTP error for URL: " ++ url
  | .requestFailed url reason => "Request error for URL " ++ url ++ ": " ++ reason
  | .refused error => error.message

/-- The text of a file, with line feeds as its line ends. -/
def FileTree.readText (tree : FileTree) (p : Path) : Except LoadError Text := do
  if !(← (tree.contains p).mapError .refused) then throw (.missing p.text)
  let bytes ← (tree.read p).mapError fun e => .unreadable p.text e.message
  let text ← (Utf8.decode bytes).mapError fun e => .unreadable p.text e.message
  return Utf8.normalizeLineEnds text

namespace Url

/-- What a fault of an address means for loading from it. -/
def loadError (url : Text) : UrlFault → LoadError
  | .incomplete => .invalidUrl url
  | .malformedHost => .malformedHost url

/-- The text behind an address, given what came back from it. -/
def load (url : Text) (reply : HttpReply) : Except LoadError Text := do
  (check url).mapError (loadError url)
  match reply with
  | .answered status body =>
    if 400 ≤ status && status < 600 then throw (.badStatus status url) else return body
  | .timedOut => throw (.timeout url)
  | .unreachable => throw (.connection url)
  | .statusLost => throw (.statusLost url)
  | .failed reason => throw (.requestFailed url reason)

end Url

/-- A loaded text and the words that say where it came from. -/
structure Loaded where
  /-- Where the text came from. -/
  source : Text
  text : Text
  deriving Repr, DecidableEq

/-- Load JSON text from a file or from an address. An empty text counts as not
    given. -/
def FileTree.loadJson (tree : FileTree) (file url : Text) (reply : HttpReply) :
    Except LoadError Loaded := do
  if file.isEmpty && url.isEmpty then throw .noSource
  if !file.isEmpty && !url.isEmpty then throw .twoSources
  if url.isEmpty then
    let p := Path.ofText file
    return { source := "📄 " ++ p.text, text := ← tree.readText p }
  return { source := "🌐 " ++ url, text := ← Url.load url reply }

namespace Package

def descriptionFile : Text := "pubspec.yaml"

/-- Whether a character ends a line of a description. -/
def endsLine (c : Char) : Bool :=
  let n := c.toNat
  (0x0A ≤ n && n ≤ 0x0D) || (0x1C ≤ n && n ≤ 0x1E) || n == 0x85 || n == 0x2028 || n == 0x2029

/-- The name that a line gives to the package. -/
def nameIn? (line : Text) : Option Text :=
  match Text.dropStart? "name:" line with
  | none => none
  | some rest =>
    let value := Text.trimStart rest
    let bare := match value with
      | c :: tail => if c == '\'' || c == '"' then tail else value
      | [] => value
    match bare.takeWhile Text.isPlain with
    | [] => none
    | name => some name

def stepInto (place : List Text) (part : Text) : List Text :=
  if part = ".." then place.dropLast else place ++ [part]

/-- The place of a path, with double dots taken back. -/
def resolve (tree : FileTree) (p : Path) : List Text :=
  p.parts.foldl stepInto (if p.isAbsolute then [] else tree.cwd)

def pathOf (place : List Text) : Path :=
  { root := "/", parts := place }

/-- The name in the description at or above a directory that lies `depth`
    levels below the root. -/
def nameAbove (tree : FileTree) : Nat → List Text → Except LoadError (Option Text)
  | depth, directory => do
    let description := pathOf (directory ++ [descriptionFile])
    if ← (tree.isFile description).mapError .refused then
      let text ← tree.readText description
      return (text.splitWhere endsLine).findSome? nameIn?
    match depth with
    | 0 => return none
    | depth + 1 => nameAbove tree depth directory.dropLast

/-- The name of the package that a path lies in. -/
def nameFor (tree : FileTree) (start : Path) : Except LoadError (Option Text) := do
  if start.text.contains (Char.ofNat 0) then throw (.refused ⟨.zeroInPath, start⟩)
  let place := resolve tree start
  let within ← (tree.isDirectory (pathOf place)).mapError .refused
  let directory := if within then place else place.dropLast
  nameAbove tree directory.length directory

end Package

end ValueClass
