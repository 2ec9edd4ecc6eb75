import ValueClass.Member.Draft

/-! # Writing members

Which members a class gets, and the step that writes one of them: it changes
the draft of the class and asks for the libraries that the member calls.
-/

namespace ValueClass.Dart

/-- The members that a class can have. A widget gets a constructor only, a
    class without instances no codecs, and a class under a `Base` class no
    comparison. -/
def allowedKinds (header : Header) : List MemberKind :=
  let kinds :=
    if header.isWidget then [.constructor]
    else if header.isAbstract then MemberKind.all.filter fun kind => !kind.isCodec
    else MemberKind.all
  if (header.superclass.getD []).has "Base" then kinds.filter fun kind => !kind.isComparison
  else kinds

/-- The members that are written for a class: the selected one, or all that
    the style enables. -/
def kindsFor (style : Style) (header : Header) (selector : Option MemberKind) : List MemberKind :=
  match selector with
  | some kind => if (allowedKinds header).contains kind then [kind] else []
  | none =>
    (allowedKinds header).filter (style.enables (style.usesEquatable || header.usesEquatable))

/-- What writing depends on, beside the class. -/
structure Surroundings where
  /-- The decisions of the owner. -/
  style : Style
  /-- One level of indentation. -/
  indent : Text
  /-- Whether the project is a Flutter application. -/
  flutter : Bool
  /-- Whether the class was inferred from JSON. -/
  fromJson : Bool := false
  deriving Repr, DecidableEq

def librariesFor (s : Surroundings) (c : ClassDecl) : MemberKind → List LibraryNeed
  | .constructor => if (ConstructorPlan.ofClass s.style c).needsMeta then [metaLibrary] else []
  | .toJson => [convertLibrary]
  | .fromJson => [convertLibrary]
  | .equality => ((EqualityHelper.forFields c.fields s.flutter).map (·.library)).toList
  | .props => [equatableLibrary]
  | _ => []

def writeMember (s : Surroundings) (d : Draft) (kind : MemberKind) : Draft :=
  let c := d.decl
  match kind with
  | .constructor => d.putConstructor s.indent
    ((ConstructorPlan.ofClass s.style c).text s.indent c.name)
  | .copyWith => d.putMethod s.indent kind (Method.copyWith s.indent c)
  | .toMap => d.putMethod s.indent kind (Method.toMap s.indent s.fromJson c)
  | .fromMap => d.putMethod s.indent kind (Method.fromMap s.indent s.style.mapDefaults s.fromJson c)
  | .toJson => d.putMethod s.indent kind Method.toJson
  | .fromJson => d.putMethod s.indent kind (Method.fromJson c)
  | .toString => d.putMethod s.indent kind (Method.toString s.indent c)
  | .equality =>
    d.putMethod s.indent kind
      (Method.equality s.indent (EqualityHelper.forFields c.fields s.flutter) c)
  | .hashCode => d.putMethod s.indent kind (Method.hashCode s.indent s.style.hashStrategy c)
  | .props => d.useEquatable.putMethod s.indent kind (Method.props s.indent c)

def Imports.requireAll (imports : Imports) (needs : List LibraryNeed) : Imports :=
  needs.foldl (fun imports need => imports.require need.path need.umbrellas) imports

/-- Write the members of one class, and ask for the libraries they call. -/
def writeClass (s : Surroundings) (selector : Option MemberKind) (imports : Imports) (d : Draft) :
    Imports × Draft :=
  (kindsFor s.style d.decl.header selector).foldl
    (fun (imports, d) kind =>
      (imports.requireAll (librariesFor s d.decl kind), writeMember s d kind))
    (imports, d)

/-- Write the members of all valid classes, one class after the other. -/
def writeClasses (s : Surroundings) (selector : Option MemberKind) :
    Imports → List Draft → Imports × List Draft
  | imports, [] => (imports, [])
  | imports, d :: rest =>
    if d.decl.isValid then
      let (imports, d) := writeClass s selector imports d
      let (imports, rest) := writeClasses s selector imports rest
      (imports, d :: rest)
    else
      let (imports, rest) := writeClasses s selector imports rest
      (imports, d :: rest)

end ValueClass.Dart
