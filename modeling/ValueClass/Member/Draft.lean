import ValueClass.Member.Constructor
import ValueClass.Member.Methods
import ValueClass.Member.Span
import ValueClass.Dart.Imports
import ValueClass.Text.Layout

/-! # Drafts

A class together with the changes that are pending for it. Writing a member
adds it at the end of the class, schedules the replacement of the one that is
there, or, when the two differ only in layout, does nothing.
-/

namespace ValueClass.Dart

/-- A change of a member that is there. -/
structure Replacement where
  name : Text
  /-- The lines that give way. -/
  span : Span
  /-- The text that takes their place. -/
  text : Text
  deriving Repr, DecidableEq

structure Draft where
  /-- The class; its header already shows pending changes. -/
  decl : ClassDecl
  /-- A constructor that goes behind the last field; empty for none. -/
  inserted : Text := []
  /-- The members that go before the last line. -/
  appended : Text := []
  /-- The members that are replaced. -/
  replacements : List Replacement := []
  /-- Whether the header has to be written anew. -/
  headerChanged : Bool := false
  deriving Repr, DecidableEq

namespace Draft

/-- Whether there is anything to change. -/
def hasChanges (d : Draft) : Bool :=
  !d.appended.isEmpty || !d.replacements.isEmpty || !d.inserted.isEmpty || d.headerChanged

/-- The first replacement that covers a line. -/
def replacementAt? (d : Draft) (line : Nat) : Option Replacement :=
  d.replacements.find? fun r => r.span.covers line

def addMixin (d : Draft) (mixin : Text) : Draft :=
  if d.decl.header.mixins.contains mixin then d
  else
    let header := { d.decl.header with mixins := d.decl.header.mixins ++ [mixin] }
    { d with decl := { d.decl with header }, headerChanged := true }

/-- Extend a class, unless it is the one extended. -/
def setSuperclass (d : Draft) (parent : Text) : Draft :=
  if d.decl.header.superclass = some parent then d
  else
    let header := { d.decl.header with superclass := some parent }
    { d with decl := { d.decl with header }, headerChanged := true }

/-- Schedule a replacement, unless it changes the layout only. -/
def replace (d : Draft) (r : Replacement) : Draft :=
  if Text.sameInk r.span.text r.text then d
  else { d with replacements := d.replacements ++ [r] }

/-- Add a member or replace the one that is there. A replaced member keeps
    the override mark above it. -/
def putMethod (d : Draft) (indent : Text) (kind : MemberKind) (method : Text) : Draft :=
  match d.decl.find? (Method.finder d.decl kind) with
  | none => { d with appended := d.appended ++ "\n" ++ Text.indentBlock indent method }
  | some span =>
    let text := Text.indentBlock indent (Text.replaceAll Method.overrideMark [] method)
    d.replace { name := kind.label, span, text }

/-- Add the constructor or replace the one that is there. -/
def putConstructor (d : Draft) (indent text : Text) : Draft :=
  let written := Text.indentBlock indent text
  match d.decl.ctor with
  | some { text := current, firstLine, lastLine := some last } =>
    d.replace
      { name := MemberKind.constructor.label
        span := { first := firstLine, last, text := current }
        text := written }
  | _ => { d with inserted := "\n" ++ written }

/-- Let the class compare by the equatable package: as its superclass where
    there is none, else as a mixin. -/
def useEquatable (d : Draft) : Draft :=
  if d.decl.header.usesEquatable then d
  else
    match d.decl.header.superclass with
    | none => d.setSuperclass "Equatable"
    | some _ => d.addMixin "EquatableMixin"

end Draft

end ValueClass.Dart
