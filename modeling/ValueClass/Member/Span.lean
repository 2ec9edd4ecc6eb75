import ValueClass.Dart.ClassDecl
import ValueClass.Dart.Line

/-! # Finding a member

A member is found by the start of its signature, whatever its layout. A block
member opens the second brace on its first line and ends where only one is
open again; an expression member ends at the first line that ends in a
semicolon.
-/

namespace ValueClass.Dart

/-- The lines that a member takes up, with what stands there. -/
structure Span where
  first : Nat
  last : Nat
  /-- The text of these lines. -/
  text : Text
  deriving Repr, DecidableEq

def Span.covers (span : Span) (line : Nat) : Bool :=
  span.first ≤ line && line ≤ span.last

namespace ClassDecl

/-- Whether a member ends with a line. `depth` counts the braces open behind
    the line. -/
def endsMember (expression : Bool) (depth : Int) (line : Text) : Bool :=
  if expression then line.trimEnd.endsWith ";" else depth == 1

/-- The number of the last line of a member and its lines, from its first line
    on. -/
def takeMember (expression : Bool) : Int → Nat → List Text → Option (Nat × List Text)
  | _, _, [] => none
  | depth, lineNo, line :: rest =>
    let inner := depth + Line.braces line
    if endsMember expression inner line then some (lineNo, [line])
    else (takeMember expression inner (lineNo + 1) rest).map fun (last, ls) => (last, line :: ls)

/-- Look for a member from a line on. Only the first line that starts like the
    member is tried. -/
def findFrom (target : Text) : Int → Nat → List Text → Option Span
  | _, _, [] => none
  | depth, lineNo, line :: rest =>
    let inner := depth + Line.braces line
    let expression := line.has "=>"
    if (Text.signature line).startsWith target && (inner == 2 || expression) then
      (takeMember expression depth lineNo (line :: rest)).map fun (last, ls) =>
        { first := lineNo, last, text := Text.unlines ls }
    else findFrom target inner (lineNo + 1) rest

/-- The member whose signature starts like `finder`. -/
def find? (c : ClassDecl) (finder : Text) : Option Span :=
  findFrom (Text.signature finder) 0 c.firstLine c.lines

end ClassDecl

end ValueClass.Dart
