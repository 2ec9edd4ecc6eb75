import ValueClass.Text.Basic

/-! # Style

What the owner of a project decides about the members that are written, and
what is known about the project they are written for.
-/

namespace ValueClass

/-- The members that can be written, in the order they are added to a class. -/
inductive MemberKind where
  /-- The unnamed constructor. -/
  | constructor
  | copyWith
  | toMap
  | fromMap
  | toJson
  | fromJson
  | toString
  | equality
  | hashCode
  /-- The properties that the equatable package compares. -/
  | props
  deriving Repr, DecidableEq

namespace MemberKind

/-- All kinds, in the order they are written. -/
def all : List MemberKind :=
  [.constructor, .copyWith, .toMap, .fromMap, .toJson, .fromJson, .toString, .equality, .hashCode,
   .props]

def label : MemberKind → Text
  | .constructor => "constructor"
  | .copyWith => "copyWith"
  | .toMap => "toMap"
  | .fromMap => "fromMap"
  | .toJson => "toJson"
  | .fromJson => "fromJson"
  | .toString => "toString"
  | .equality => "equality"
  | .hashCode => "hashCode"
  | .props => "props"

def ofLabel? (label : Text) : Option MemberKind :=
  all.find? fun kind => kind.label == label

/-- Whether a member needs a class with instances. -/
def isCodec : MemberKind → Bool
  | .copyWith | .toMap | .fromMap | .toJson | .fromJson => true
  | _ => false

/-- Whether a member takes part in comparing instances. -/
def isComparison : MemberKind → Bool
  | .equality | .hashCode | .props => true
  | _ => false

end MemberKind

/-- How a named parameter that must be given is marked. -/
inductive RequiredMark where
  | keyword
  | annotated
  | unmarked
  deriving Repr, DecidableEq

/-- How hash codes of fields are combined. -/
inductive HashStrategy where
  /-- `a.hashCode ^ b.hashCode` -/
  | xor
  /-- `Object.hashAll([a, b])` -/
  | combinator
  deriving Repr, DecidableEq

/-- Whether classes that come from JSON get a file each. -/
inductive SeparatePolicy where
  | ask
  /-- One file for each class. -/
  | always
  /-- One file for all classes. -/
  | never
  deriving Repr, DecidableEq

inductive IndentFault where
  /-- It is not a whole number. -/
  | notWhole
  /-- It does not fit into 64 bits. -/
  | outOfRange
  deriving Repr, DecidableEq

def IndentFault.wording : IndentFault → Text
  | .notWhole => "indent_size must be a whole number"
  | .outOfRange => "indent_size is out of range"

/-- The indentation of one level, as it is set. -/
inductive Indentation where
  | spaces (count : Nat)
  /-- A setting that gives none. -/
  | unusable (fault : IndentFault)
  deriving Repr, DecidableEq

namespace Indentation

/-- The least number that does not fit into 64 bits with its sign. -/
def wordBound : Nat := 0x8000000000000000

/-- The indentation that a whole number sets; a negative one sets none. -/
def ofInt (n : Int) : Indentation :=
  if n < -(wordBound : Int) || (wordBound : Int) ≤ n then .unusable .outOfRange
  else .spaces n.toNat

end Indentation

/-- The decisions about written members. -/
structure Style where
  writesConstructor : Bool := true
  /-- Give constructor parameters default values instead of requiring them. -/
  constructorDefaults : Bool := false
  /-- The mark of required parameters. -/
  requiredMark : RequiredMark := .keyword
  writesCopyWith : Bool := true
  writesToMap : Bool := true
  writesFromMap : Bool := true
  /-- Replace missing map values by default values. -/
  mapDefaults : Bool := false
  writesToJson : Bool := true
  writesFromJson : Bool := true
  writesToString : Bool := true
  writesEquality : Bool := true
  writesHashCode : Bool := true
  /-- The way hash codes are combined. -/
  hashStrategy : HashStrategy := .xor
  /-- Compare instances by the equatable package. -/
  usesEquatable : Bool := false
  /-- The layout of files that come from JSON. -/
  separate : SeparatePolicy := .ask
  /-- Read strings that look like a date as dates. -/
  detectsTimestamps : Bool := false
  /-- Ask for each member before it is replaced, and not once for a class. -/
  reviewsEachMember : Bool := false
  /-- The indentation of one level. -/
  indentation : Indentation := .spaces 2
  deriving Repr, DecidableEq

namespace Style

/-- Whether a member is written when none is asked for. The equatable package
    takes the place of equality and hash code. -/
def enables (style : Style) (equatable : Bool) : MemberKind → Bool
  | .constructor => style.writesConstructor
  | .copyWith => style.writesCopyWith
  | .toMap => style.writesToMap
  | .fromMap => style.writesFromMap
  | .toJson => style.writesToJson
  | .fromJson => style.writesFromJson
  | .toString => style.writesToString
  | .equality => style.writesEquality && !equatable
  | .hashCode => style.writesHashCode && !equatable
  | .props => equatable

end Style

/-- The surroundings that a project is written for. -/
inductive Flavor where
  /-- To be found out from the imports. -/
  | auto
  | flutter
  | dart
  deriving Repr, DecidableEq

def Flavor.label : Flavor → Text
  | .auto => "auto"
  | .flutter => "flutter"
  | .dart => "dart"

def Flavor.ofLabel? (label : Text) : Option Flavor :=
  [Flavor.auto, .flutter, .dart].find? fun flavor => flavor.label == label

structure Project where
  /-- The name of the package. -/
  packageName : Option Text := none
  flavor : Flavor := .auto
  deriving Repr, DecidableEq

/-- Find out the flavor from import lines, where it is open. -/
def Project.resolve (project : Project) (importLines : List Text) : Project :=
  match project.flavor with
  | .auto =>
    let usesFlutter := importLines.any fun line => line.has "package:flutter/"
    { project with flavor := if usesFlutter then .flutter else .dart }
  | _ => project

end ValueClass
