import ValueClass.Text.Case

/-! # Paths

A path as a list of components. Empty components and single dots are dropped
when a path is read; double dots are kept, since what they mean depends on the
directories that exist.
-/

namespace ValueClass

structure Path where
  /-- The slashes of an absolute path; empty for a relative one. -/
  root : Text := []
  parts : List Text := []
  deriving Repr, DecidableEq

namespace Path

/-- The slashes that make a path absolute. Exactly two are kept. -/
def rootOf (t : Text) : Text :=
  if t.startsWith "//" && !t.startsWith "///" then "//"
  else if t.startsWith "/" then "/"
  else []

def ofText (t : Text) : Path where
  root := rootOf t
  parts := (t.runs (· != '/')).filter fun part => part != "."

def text (p : Path) : Text :=
  if p.root.isEmpty && p.parts.isEmpty then "." else p.root ++ Text.join "/" p.parts

/-- Whether the path starts at the root. -/
def isAbsolute (p : Path) : Bool :=
  !p.root.isEmpty

/-- A path below another; an absolute path stands for itself. -/
def append (p q : Path) : Path :=
  if q.isAbsolute then q else { p with parts := p.parts ++ q.parts }

/-- The path without its last component. -/
def parent (p : Path) : Path :=
  { p with parts := p.parts.dropLast }

/-- The last component from its last dot on. A dot at either end of the name
    does not count. -/
def suffix (p : Path) : Text :=
  let name := (p.parts.getLast?).getD []
  let ending := name.reverse.takeWhile (· != '.')
  if ending.isEmpty || name.length ≤ ending.length + 1 then [] else '.' :: ending.reverse

def isJson (p : Path) : Bool :=
  p.suffix.lower == ".json".toList

end Path

end ValueClass
