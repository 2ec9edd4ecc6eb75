import ValueClass.Dart.Line
import ValueClass.Proofs.Text.Pieces

/-! # Fresh buffers

Buffers as they are written before anything is generated: classes with nothing
but final fields, and blank lines around them. Everything that makes such a
buffer well formed is part of the data.
-/

namespace ValueClass.Fresh

/-- An identifier: ASCII letters, digits and underscores, and no digit first. -/
structure IsIdentifier (t : Text) : Prop where
  plain : ∀ c ∈ t, Text.isPlain c
  first : ∃ c rest, t = c :: rest ∧ (c.isAlpha ∨ c = '_')

/-- The words that no type and no name is made of. -/
def reserved : List Text :=
  ["static", "get", "set", "return", "factory", "final", "const", "late", "class"]

/-- A character that can stand between the brackets of a type. -/
def isTypeChar (c : Char) : Bool :=
  Text.isPlain c || c == '<' || c == '>' || c == ',' || c == '?' || (isBlank c && c != '\n')

/-- Whether every angle bracket is closed, with `depth` of them open before. -/
def anglesClose : Nat → Text → Bool
  | depth, [] => depth == 0
  | depth, c :: rest =>
    if c == '<' then anglesClose (depth + 1) rest
    else if c == '>' then depth != 0 && anglesClose (depth - 1) rest
    else anglesClose depth rest

/-- The text of a type: its name, its arguments in angle brackets, and the mark
    of a type that admits null. -/
def spellType (name : Text) (arguments : Option Text) (nullable : Bool) : Text :=
  name ++ ((arguments.map fun inner => '<' :: (inner ++ ['>'])).getD [] ++
    if nullable then ['?'] else [])

structure TypeText where
  name : Text
  arguments : Option Text := none
  nullable : Bool := false
  isIdentifier : IsIdentifier name
  typeChars : ∀ inner, arguments = some inner → inner.all isTypeChar
  closed : ∀ inner, arguments = some inner → anglesClose 0 inner
  unreserved : ∀ word ∈ (spellType name arguments nullable).words, word ∉ reserved

def TypeText.text (t : TypeText) : Text :=
  spellType t.name t.arguments t.nullable

structure FieldText where
  type : TypeText
  name : Text
  isIdentifier : IsIdentifier name
  unreserved : name ∉ reserved

def FieldText.line (f : FieldText) : Text :=
  "  final " ++ f.type.text ++ " " ++ f.name ++ ";"

structure ClassText where
  name : Text
  fields : List FieldText
  isIdentifier : IsIdentifier name
  upper : ∃ c rest, name = c :: rest ∧ c.isUpper
  nonempty : fields ≠ []
  distinct : (fields.map (·.name)).Nodup

def ClassText.lines (c : ClassText) : List Text :=
  ("class " ++ c.name ++ " \x7b") :: (c.fields.map (·.line) ++ ["\x7d".toList])

def IsGap (gap : List Text) : Prop :=
  ∀ line ∈ gap, line.isBlankText ∧ '\n' ∉ line

/-- A buffer of fresh classes, each with the blank lines above it, and the blank
    lines at the end. -/
structure Buffer where
  classes : List (List Text × ClassText)
  ending : List Text
  nonempty : classes ≠ []
  gaps : ∀ part ∈ classes, IsGap part.1
  endingGap : IsGap ending

def Buffer.lines (b : Buffer) : List Text :=
  b.classes.flatMap (fun part => part.1 ++ part.2.lines) ++ b.ending

def Buffer.text (b : Buffer) : Text :=
  Text.unlines b.lines

end ValueClass.Fresh
