import ValueClass.Text.Blank

/-! # Type expressions

A declared type is read as deep as code generation looks into it: lists and
sets are taken apart level by level, maps and all other types are leaves. A
bare `List` or `Set` has elements of type `dynamic`.
-/

namespace ValueClass.Dart

inductive Collection where
  | list
  | set
  | map
  deriving Repr, DecidableEq

def Collection.name : Collection → Text
  | .list => "List"
  | .set => "Set"
  | .map => "Map"

/-- Whether a type text, without its nullability mark, names a collection of
    this kind. -/
def Collection.spells (kind : Collection) (text : Text) : Bool :=
  text == kind.name || text.startsWith (kind.name ++ "<")

/-- A type expression. Every node keeps its text without the nullability mark
    that follows it. -/
inductive TypeExpr where
  /-- A type that is no collection. -/
  | scalar (text : Text) (nullable : Bool)
  /-- A map; its keys and values are not looked into. -/
  | map (text : Text) (nullable : Bool)
  /-- A list and the type of its elements. -/
  | list (text : Text) (nullable : Bool) (element : TypeExpr)
  /-- A set and the type of its elements. -/
  | set (text : Text) (nullable : Bool) (element : TypeExpr)
  deriving Repr, DecidableEq

namespace TypeExpr

/-- The type text without a trailing nullability mark. -/
def bare (raw : Text) : Text :=
  if raw.endsWith "?" then raw.dropLast else raw

/-- The text between the angle brackets of a collection whose name has `n`
    characters. -/
def argument (n : Nat) (text : Text) : Text :=
  Text.trim (text.drop (n + 1)).dropLast

theorem length_trim_le (t : Text) : t.trim.length ≤ t.length := by
  have h1 : t.trimStart.length ≤ t.length := (List.dropWhile_suffix _).length_le
  have h2 : (t.trimStart.reverse.dropWhile isBlank).length ≤ t.trimStart.reverse.length :=
    (List.dropWhile_suffix _).length_le
  simp only [Text.trim, Text.trimEnd, List.length_reverse] at h2 ⊢
  omega

theorem length_argument_lt (n : Nat) {text : Text} (h : text ≠ []) :
    (argument n text).length < text.length := by
  have h0 : 0 < text.length := List.length_pos_iff.2 h
  have h1 := length_trim_le ((text.drop (n + 1)).dropLast)
  simp only [argument, List.length_dropLast, List.length_drop] at h1 ⊢
  omega

theorem length_bare_le (raw : Text) : (bare raw).length ≤ raw.length := by
  unfold bare
  split <;> simp

def parse (raw : Text) : TypeExpr :=
  let nullable := raw.endsWith "?"
  if _h : bare raw = [] then .scalar [] nullable
  else if bare raw == Collection.list.name then
    .list (bare raw) nullable (.scalar "dynamic" false)
  else if bare raw == Collection.set.name then
    .set (bare raw) nullable (.scalar "dynamic" false)
  else if Collection.list.spells (bare raw) then
    .list (bare raw) nullable (parse (argument 4 (bare raw)))
  else if Collection.set.spells (bare raw) then
    .set (bare raw) nullable (parse (argument 3 (bare raw)))
  else if Collection.map.spells (bare raw) then .map (bare raw) nullable
  else .scalar (bare raw) nullable
termination_by raw.length
decreasing_by
  · exact Nat.lt_of_lt_of_le (length_argument_lt 4 _h) (length_bare_le raw)
  · exact Nat.lt_of_lt_of_le (length_argument_lt 3 _h) (length_bare_le raw)

/-- The text of the type without its nullability mark. -/
def text : TypeExpr → Text
  | .scalar text _ => text
  | .map text _ => text
  | .list text _ _ => text
  | .set text _ _ => text

def isNullable : TypeExpr → Bool
  | .scalar _ nullable => nullable
  | .map _ nullable => nullable
  | .list _ nullable _ => nullable
  | .set _ nullable _ => nullable

/-- The kind of collection, if the type is one. -/
def collection? : TypeExpr → Option Collection
  | .scalar _ _ => none
  | .map _ _ => some .map
  | .list _ _ _ => some .list
  | .set _ _ _ => some .set

def isCollection (t : TypeExpr) : Bool :=
  t.collection?.isSome

/-- The type of the elements of a list or set; any other type itself. -/
def element : TypeExpr → TypeExpr
  | .list _ _ element => element
  | .set _ _ element => element
  | t => t

/-- The text of the type under all levels of lists and sets. -/
def baseText : TypeExpr → Text
  | .scalar text _ => text
  | .map text _ => text
  | .list _ _ element => element.baseText
  | .set _ _ element => element.baseText

/-- The types whose values stand for themselves in a map. -/
def primitiveNames : List Text :=
  ["String", "num", "int", "double", "bool", "dynamic", "Object"]

/-- Whether values need no conversion. Maps count as such, and lists and sets
    follow their elements. -/
def isPrimitive : TypeExpr → Bool
  | .scalar text _ => primitiveNames.contains text
  | .map _ _ => true
  | .list _ _ element => element.isPrimitive
  | .set _ _ element => element.isPrimitive

/-- The literal that stands for a missing value of a scalar type. -/
def scalarDefault (text : Text) : Text :=
  if text = "String" then "''"
  else if text = "num" || text = "int" then "0"
  else if text = "double" then "0.0"
  else if text = "bool" then "false"
  else if text = "dynamic" then "null"
  else text ++ "()"

/-- The expression that stands for a missing value. -/
def defaultValue : TypeExpr → Text
  | .scalar text _ => scalarDefault text
  | .list _ _ _ => "const []"
  | .map _ _ => "const \x7b\x7d"
  | .set _ _ _ => "const \x7b\x7d"

end TypeExpr

end ValueClass.Dart
