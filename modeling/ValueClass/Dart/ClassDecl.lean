import ValueClass.Dart.Field
import ValueClass.Dart.Header

/-! # Class declarations

A class as it stands in a buffer: its header, its lines, its fields and its
unnamed constructor. Lines are counted from one.
-/

namespace ValueClass.Dart

structure Constructor where
  text : Text
  firstLine : Nat
  /-- The line its parameter list closes on, once it does. -/
  lastLine : Option Nat := none
  deriving Repr, DecidableEq

/-- Why no members can be written for a class. -/
inductive Issue where
  /-- There is nothing to write members for. -/
  | noFields
  /-- The buffer ends, or another class starts, before the class is closed. -/
  | noEnding
  /-- Two fields share a name. -/
  | duplicateNames
  deriving Repr, DecidableEq

def Issue.message : Issue → Text
  | .noFields => "Class must have at least one property!"
  | .noEnding => "Class has no ending!"
  | .duplicateNames => "Class doesn't have unique property names!"

structure ClassDecl where
  /-- The parts of the first line. -/
  header : Header
  /-- The number of the first line. -/
  firstLine : Nat
  /-- The number of the line that closes the class. -/
  lastLine : Option Nat := none
  /-- The lines, the header first. -/
  lines : List Text := []
  /-- The stored fields, in order. -/
  fields : List Field := []
  /-- The unnamed constructor. -/
  ctor : Option Constructor := none
  deriving Repr, DecidableEq

namespace ClassDecl

def name (c : ClassDecl) : Text :=
  c.header.name.getD []

def type (c : ClassDecl) : Text :=
  c.header.type.getD []

def content (c : ClassDecl) : Text :=
  Text.unlines c.lines

def lastFieldLine? (c : ClassDecl) : Option Nat :=
  c.fields.getLast?.map (·.line)

def fieldNames (c : ClassDecl) : List Text :=
  c.fields.map (·.name)

/-- Whether no name stands twice in a list. -/
def allDistinct : List Text → Bool
  | [] => true
  | name :: rest => !rest.contains name && allDistinct rest

/-- Why no members can be written, if they cannot. -/
def issue? (c : ClassDecl) : Option Issue :=
  if c.fields.isEmpty then some .noFields
  else if c.lastLine.isNone then some .noEnding
  else if !allDistinct c.fieldNames then some .duplicateNames
  else none

def isValid (c : ClassDecl) : Bool :=
  c.issue?.isNone

/-- Whether the constructor is complete. -/
def hasConstructor (c : ClassDecl) : Bool :=
  (c.ctor.bind (·.lastLine)).isSome

/-- Whether a written constructor takes only named parameters. A class without
    one will get such a constructor. -/
def hasNamedConstructor (c : ClassDecl) : Bool :=
  match c.ctor with
  | none => true
  | some ctor =>
    let trimmed := ctor.text.trim
    let named := ((Text.dropStart? "const" trimmed).map Text.trimStart).getD trimmed
    named.startsWith (c.name ++ "(\x7b")

/-- Whether members fit on one line: at most three fields. -/
def hasFewFields (c : ClassDecl) : Bool :=
  c.fields.length ≤ 3

end ClassDecl

end ValueClass.Dart
