import ValueClass.Name.Policy

/-! # Dart names

Variable and class names of Dart for arbitrary text. A reserved word is
written with its first letter doubled: `class` is called `cClass`.
-/

namespace ValueClass.Name

/-- The words that Dart does not accept as names. -/
def reservedWords : List Text :=
  List.map String.toList
    ["assert", "break", "case", "catch", "class", "const", "continue", "default", "do", "else",
     "enum", "extends", "false", "final", "finally", "for", "if", "in", "is", "new", "null",
     "rethrow", "return", "super", "switch", "this", "throw", "true", "try", "var", "void",
     "while", "with"]

def dartPolicy : NamePolicy where
  reserved := reservedWords
  respelling := .doubledInitial

/-- A variable name for a text: `first-name` is called `firstName`. -/
def varName (text : Text) : Text :=
  dartPolicy.nameFor text .preserve

/-- A class name for a text: `user_profile` is called `UserProfile`. -/
def className (text : Text) : Text :=
  dartPolicy.nameFor text .pascal

end ValueClass.Name
