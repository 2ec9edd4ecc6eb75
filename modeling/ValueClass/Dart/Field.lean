import ValueClass.Dart.TypeExpr

/-! # Fields

A stored property of a class: its declared type, the key it has in maps, the
name it has in code and the line it stands on.
-/

namespace ValueClass.Dart

structure Field where
  /-- The declared type, with its nullability mark. -/
  rawType : Text
  /-- The key of the property in maps. -/
  key : Text
  /-- The name of the property in code. -/
  name : Text
  /-- The line of the declaration, counted from one. -/
  line : Nat := 1
  /-- Whether the declaration is marked `final`. -/
  isFinal : Bool := true
  /-- Whether the declaration is marked `const`. -/
  isConst : Bool := false
  /-- Whether the type is announced as an enumeration. -/
  isEnum : Bool := false
  deriving Repr, DecidableEq

namespace Field

def type (f : Field) : TypeExpr :=
  .parse f.rawType

def isNullable (f : Field) : Bool :=
  f.type.isNullable

/-- Whether the field holds a collection. -/
def isCollection (f : Field) : Bool :=
  f.type.isCollection

/-- Whether a missing map value may be replaced by a literal. -/
def needsDefault (f : Field) : Bool :=
  !f.isNullable && !f.isCollection && !f.isEnum && f.type.text != "dynamic" && f.type.isPrimitive

end Field

end ValueClass.Dart
