/-! # Text

Source text is a list of characters, so that every reader and writer of the
library is plain recursion on data. Strings appear only where text enters or
leaves a program.
-/

namespace ValueClass

/-- A piece of text, as its characters. -/
abbrev Text := List Char

/-- A literal stands for its characters wherever text is wanted. -/
instance : Coe String Text := ⟨String.toList⟩

namespace Text

/-- Whether the text begins with `start`. -/
def startsWith (t start : Text) : Bool :=
  start.isPrefixOf t

def endsWith (t tail : Text) : Bool :=
  tail.isSuffixOf t

/-- Whether `part` stands somewhere in the text. -/
def has : Text → Text → Bool
  | [], part => part.isEmpty
  | c :: rest, part => part.isPrefixOf (c :: rest) || has rest part

/-- The text before and after the first `sep`, if there is one. -/
def cut? (sep : Text) : Text → Option (Text × Text)
  | [] => if sep.isEmpty then some ([], []) else none
  | c :: rest =>
    if sep.isPrefixOf (c :: rest) then some ([], (c :: rest).drop sep.length)
    else (cut? sep rest).map fun (before, after) => (c :: before, after)

/-- Put a character in front of the first piece. -/
def consFirst (c : Char) : List Text → List Text
  | [] => [[c]]
  | piece :: pieces => (c :: piece) :: pieces

/-- Cut the text at every character that satisfies `cuts`, which is dropped.
    There is always one piece more than there are cuts. -/
def splitWhere (cuts : Char → Bool) : Text → List Text
  | [] => [[]]
  | c :: rest => if cuts c then [] :: splitWhere cuts rest else consFirst c (splitWhere cuts rest)

/-- The maximal non-empty runs of characters that satisfy `keep`. -/
def runs (keep : Char → Bool) (t : Text) : List Text :=
  (splitWhere (fun c => !keep c) t).filter fun piece => !piece.isEmpty

def join (sep : Text) : List Text → Text
  | [] => []
  | [piece] => piece
  | piece :: next :: rest => piece ++ sep ++ join sep (next :: rest)

/-- The lines of a text: only a line feed ends a line, so a carriage return
    stays in the line that it closes. -/
def lines (t : Text) : List Text :=
  splitWhere (· == '\n') t

def unlines (ls : List Text) : Text :=
  join ['\n'] ls

/-- Replace every occurrence of `old`, from the left; the rest is searched
    only behind the occurrence. `skip` counts characters still to be passed
    over. -/
def replaceGo (old new : Text) : Nat → Text → Text
  | _, [] => []
  | skip + 1, _ :: rest => replaceGo old new skip rest
  | 0, c :: rest =>
    if old.isPrefixOf (c :: rest) then new ++ replaceGo old new (old.length - 1) rest
    else c :: replaceGo old new 0 rest

/-- Replace every occurrence of `old` by `new`, from the left. An empty `old`
    stands before every character and at the end. -/
def replaceAll (old new t : Text) : Text :=
  if old.isEmpty then new ++ t.flatMap (fun c => c :: new) else replaceGo old new 0 t

def ofNat (n : Nat) : Text :=
  Nat.toDigits 10 n

/-- A whole number in decimal digits, with a minus sign when it is negative. -/
def ofInt : Int → Text
  | .ofNat n => ofNat n
  | .negSucc n => '-' :: ofNat (n + 1)

/-- Remove a piece of text from the front, where it stands there. -/
def dropStart? (start t : Text) : Option Text :=
  if start.isPrefixOf t then some (t.drop start.length) else none

/-- The text where a condition holds, and nothing otherwise. -/
def when (condition : Bool) (t : Text) : Text :=
  if condition then t else []

/-- Whether a character is an ASCII letter, an ASCII digit or an underscore. -/
def isPlain (c : Char) : Bool :=
  c.isAlphanum || c == '_'

end Text

end ValueClass
