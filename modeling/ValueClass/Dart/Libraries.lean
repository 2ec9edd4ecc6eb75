import ValueClass.Dart.Field

/-! # Libraries

The libraries that written members call, and the helper that compares the
collections of a class.
-/

namespace ValueClass.Dart

/-- A library that code needs, with the libraries that hand on the same names. -/
structure LibraryNeed where
  path : Text
  /-- Libraries that make it unnecessary. -/
  umbrellas : List Text := []
  deriving Repr, DecidableEq

/-- The libraries that hand on the foundation of Flutter. -/
def flutterUmbrellas : List Text :=
  ["package:flutter/material.dart", "package:flutter/widgets.dart",
   "package:flutter/cupertino.dart"]

def convertLibrary : LibraryNeed := { path := "dart:convert" }

def equatableLibrary : LibraryNeed := { path := "package:equatable/equatable.dart" }

/-- The annotation of required parameters. -/
def metaLibrary : LibraryNeed :=
  { path := "package:meta/meta.dart", umbrellas := flutterUmbrellas }

/-- Comparison of collections in plain Dart. -/
def collectionLibrary : LibraryNeed := { path := "package:collection/collection.dart" }

/-- Comparison of collections in Flutter. -/
def foundationLibrary : LibraryNeed :=
  { path := "package:flutter/foundation.dart", umbrellas := flutterUmbrellas }

/-- A function that compares collections by their elements. -/
structure EqualityHelper where
  function : Text
  /-- The line that declares it, unless a library does. -/
  declaration : Option Text
  /-- The library it comes from. -/
  library : LibraryNeed
  deriving Repr, DecidableEq

namespace EqualityHelper

/-- Compares nested collections of any kind. -/
def deep : EqualityHelper where
  function := "collectionEquals"
  declaration := some "final collectionEquals = const DeepCollectionEquality().equals;".toList
  library := collectionLibrary

/-- The function that compares collections of one kind. -/
def functionName : Collection → Text
  | .list => "listEquals"
  | .set => "setEquals"
  | .map => "mapEquals"

def ofKind (flutter : Bool) (kind : Collection) : EqualityHelper :=
  if flutter then
    { function := functionName kind, declaration := none, library := foundationLibrary }
  else
    { function := functionName kind
      declaration :=
        some ("final " ++ functionName kind ++ " = const " ++ kind.name ++ "Equality().equals;")
      library := collectionLibrary }

/-- The helper that the collections among some fields need: that of their
    kind, or the deep one when kinds are mixed. -/
def forFields (fields : List Field) (flutter : Bool) : Option EqualityHelper :=
  match fields.filterMap fun f => f.type.collection? with
  | [] => none
  | kind :: rest => some (if rest.all (· == kind) then ofKind flutter kind else deep)

end EqualityHelper

end ValueClass.Dart
