import ValueClass.Edit.Basic
import ValueClass.Member.Draft

/-! # Planning edits

The text of a class with its pending changes in place: a changed header, each
replacement where its span starts, the inserted constructor behind the last
field and the appended members before the last line. There is one edit for each
changed class, from the last class to the first, and then one for the import
block, which lies above all of them.
-/

namespace ValueClass.Dart.Draft

/-- What stands for a line, and the replacement texts written so far. A text
    that was written is not written again. -/
def lineTexts (d : Draft) (written : List Text) (lineNo : Nat) (isLast : Bool) (line : Text) :
    List Text × List Text :=
  match d.replacementAt? lineNo with
  | some r => if written.contains r.text then ([], written) else ([r.text], r.text :: written)
  | none => (if isLast && !d.appended.isEmpty then [d.appended, line] else [line], written)

/-- The constructor that goes behind a line. -/
def insertedAfter (d : Draft) (lineNo : Nat) : List Text :=
  if !d.inserted.isEmpty && d.decl.lastFieldLine? == some lineNo then [d.inserted] else []

/-- The texts of the lines of the body. -/
def bodyTexts (d : Draft) (written : List Text) : Nat → List Text → List Text
  | _, [] => []
  | lineNo, line :: rest =>
    let (texts, written) := d.lineTexts written lineNo rest.isEmpty line
    texts ++ d.insertedAfter lineNo ++ d.bodyTexts written (lineNo + 1) rest
termination_by _ ls => ls.length

/-- The class with its pending changes. -/
def render (d : Draft) : Text :=
  match d.decl.lines with
  | [] => []
  | header :: body =>
    let first := if d.headerChanged then d.decl.header.render header else header
    Text.unlines
      (first :: (d.insertedAfter d.decl.firstLine ++ d.bodyTexts [] (d.decl.firstLine + 1) body))

end ValueClass.Dart.Draft

namespace ValueClass.Dart

/-- The edit that brings a changed class into the buffer. -/
def Draft.edit? (d : Draft) : Option LineEdit :=
  match d.decl.lastLine with
  | some last =>
    if d.decl.isValid && d.hasChanges then
      some { start := (d.decl.firstLine : Int) - 1, stop := last, text := d.render }
    else none
  | none => none

/-- The edit that brings the import block into the buffer. A new block is
    followed by an empty line. -/
def Imports.edit? (imports : Imports) : Option LineEdit :=
  if imports.changed then
    match imports.block with
    | some (first, last) =>
      some { start := first, stop := (last : Int) + 1, text := imports.formatted }
    | none =>
      some { start := imports.insertLine, stop := imports.insertLine,
             text := imports.formatted ++ "\n" }
  else none

/-- The edits for a buffer. The drafts come in source order. -/
def planEdits (drafts : List Draft) (imports : Imports) : List LineEdit :=
  drafts.reverse.filterMap Draft.edit? ++ imports.edit?.toList

end ValueClass.Dart
