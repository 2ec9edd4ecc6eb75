import ValueClass.Dart.Field

/-! # Map codecs

The expressions that turn a value into its place in a map and back. Both
directions follow the type level by level; the pair used at each leaf is
listed side by side in `Leaf`.
-/

namespace ValueClass.Dart

/-- How a value of a scalar type is held in a map. -/
inductive Leaf where
  /-- A `DateTime`, as text or as milliseconds. -/
  | date
  /-- A `Color`, as its number. -/
  | color
  /-- An `IconData`, as its code point. -/
  | icon
  | same
  /-- A nested map, made by the type's own codec. -/
  | nested
  deriving Repr, DecidableEq

/-- The way a scalar type is held in a map. -/
def Leaf.ofText (text : Text) : Leaf :=
  if text = "DateTime" then .date
  else if text = "Color" then .color
  else if text = "IconData" then .icon
  else if TypeExpr.primitiveNames.contains text then .same
  else .nested

namespace Codec

/-- The mark that guards a member access on a value that may be null. -/
def guard (nullable : Bool) : Text :=
  if nullable then "?" else []

def encodeLeaf (fromJson : Bool) (nullable : Bool) (value : Text) : Leaf → Text
  | .date =>
    value ++ guard nullable ++
      (if fromJson then ".toIso8601String()" else ".millisecondsSinceEpoch" : Text)
  | .color => value ++ guard nullable ++ ".value"
  | .icon => value ++ guard nullable ++ ".codePoint"
  | .same => value
  | .nested => value ++ guard nullable ++ ".toMap()"

/-- The scalar behind a map value. Numbers that come from JSON are converted,
    since a whole number there may stand for a fraction and the other way
    round. -/
def decodeLeaf (fromJson : Bool) (text value : Text) : Leaf → Text
  | .date =>
    if fromJson then "DateTime.parse(" ++ value ++ ")"
    else "DateTime.fromMillisecondsSinceEpoch(" ++ value ++ ")"
  | .color => "Color(" ++ value ++ ")"
  | .icon => "IconData(" ++ value ++ ", fontFamily: 'MaterialIcons')"
  | .same =>
    if fromJson && text = "double" then value ++ "?.toDouble()"
    else if fromJson && text = "int" then value ++ "?.toInt()"
    else value
  | .nested => text ++ ".fromMap(" ++ value ++ ")"

/-- The map value of a value of the given type. -/
def encodeType (fromJson : Bool) : TypeExpr → Text → Text
  | .map _ _, value => value
  | .list _ nullable element, value =>
    if element.isPrimitive then value
    else value ++ guard nullable ++ ".map((x) => " ++ encodeType fromJson element "x" ++
      ").toList()"
  | .set _ nullable element, value =>
    if element.isPrimitive then value ++ guard nullable ++ ".toList()"
    else value ++ guard nullable ++ ".map((x) => " ++ encodeType fromJson element "x" ++
      ").toList()"
  | .scalar text nullable, value => encodeLeaf fromJson nullable value (.ofText text)

/-- The value of the given type behind a map value. -/
def decodeType (fromJson : Bool) : TypeExpr → Text → Text
  | .map text _, value => text ++ ".from(" ++ value ++ ")"
  | .list text _ element, value =>
    if element.isPrimitive then text ++ ".from(" ++ value ++ ")"
    else text ++ ".from(" ++ value ++ ".map((x) => " ++ decodeType fromJson element "x" ++ "))"
  | .set text _ element, value =>
    if element.isPrimitive then text ++ ".from(" ++ value ++ ")"
    else text ++ ".from(" ++ value ++ ".map((x) => " ++ decodeType fromJson element "x" ++ "))"
  | .scalar text _, value => decodeLeaf fromJson text value (.ofText text)

/-- The map value of a field. An enumeration is held by its index. -/
def encode (fromJson : Bool) (f : Field) (value : Text) : Text :=
  if f.isEnum then value ++ guard f.isNullable ++ ".index" else encodeType fromJson f.type value

/-- The value of a field behind a map value. -/
def decode (fromJson : Bool) (f : Field) (value : Text) : Text :=
  if f.isEnum then f.type.text ++ ".values[" ++ value ++ "]" else decodeType fromJson f.type value

end Codec

end ValueClass.Dart
