import ValueClass.Proofs.Fresh.Session
import ValueClass.Proofs.Fresh.Stage

/-! # Rows of classes

A buffer below its imports is a row of classes, each in its stage and with blank lines
below it. Such a buffer is read back class by class, and a run takes each class that it
is asked for to the next stage.
-/

namespace ValueClass.Fresh

open Dart Dart.Line

namespace Stage

variable {s : Surroundings} {c : ClassText} (st : Stage s c) {selector : Option MemberKind}
  {lineNo : Nat}

/-- The class once a run has written its members. -/
def run (selector : Option MemberKind) : Stage s c :=
  st.write (nodup_kindsFor s.style (headerParts c.name st.extended) selector)

theorem edit?_eq : (draftFor s selector (st.decl lineNo)).edit? =
    if (draftFor s selector (st.decl lineNo)).hasChanges then
      some { start := (lineNo : Int) - 1, stop := ((lineNo + st.lines.length - 1 : Nat) : Int)
             text := (draftFor s selector (st.decl lineNo)).render }
    else none := by
  have alike := alike_draftFor s selector (st.decl lineNo)
  have ending : (draftFor s selector (st.decl lineNo)).decl.lastLine =
      some (lineNo + st.lines.length - 1) := by
    rw [alike.body]
    rfl
  have valid : (draftFor s selector (st.decl lineNo)).decl.isValid := by
    have same : (draftFor s selector (st.decl lineNo)).decl.isValid = (st.decl lineNo).isValid := by
      rw [alike.body]
      rfl
    rw [same]
    exact st.isValid_decl lineNo
  rw [Draft.edit?, ending, valid, Bool.true_and, alike.firstLine]
  rfl

theorem lines_run_of_unchanged (whole : ∀ line ∈ st.methods, '\n' ∉ line)
    (same : (draftFor s selector (st.decl lineNo)).hasChanges = false) :
    (st.run selector).lines = st.lines := by
  have header := @header_draftFor s c st lineNo selector
  have written := st.lines_write whole (nodup_kindsFor s.style (st.decl lineNo).header selector)
  rw [Draft.hasChanges, st.appended_draftFor, st.inserted_draftFor] at same
  simp only [Bool.or_eq_false_iff, Bool.not_eq_false'] at same
  obtain ⟨⟨⟨appended, -⟩, inserted⟩, unchanged⟩ := same
  rw [unchanged] at header
  have own : (headerLine c.name st.extended).lines = [_] :=
    Text.lines_of_notMem (notMem_headerLine c.isIdentifier _ (by decide) (by decide))
  have closing : Text.lines "\x7d".toList = ["\x7d".toList] := by decide
  rw [← header, if_pos appended, if_pos inserted] at written
  refine written.symm.trans ?_
  simp only [Bool.false_eq_true, ↓reduceIte, List.flatMap_cons, List.flatMap_append,
    List.flatMap_nil, own, closing, Text.flatMap_lines_of_notMem (noFeed_fields c),
    Text.flatMap_lines_of_notMem st.noFeed_ctorPart, Text.flatMap_lines_of_notMem whole, lines,
    Grown.front, List.append_assoc, List.cons_append, List.nil_append]
  rfl

theorem edited (whole : ∀ line ∈ st.methods, '\n' ∉ line) (selector : Option MemberKind)
    (above rest : List Text) :
    (draftFor s selector (st.decl (above.length + 1))).edit?.toList.foldl (fun ls e => e.applyTo ls)
      (above ++ (st.lines ++ rest)) = above ++ ((st.run selector).lines ++ rest) := by
  rw [edit?_eq]
  split
  · have size : 0 < st.lines.length := by
      simp only [lines, List.length_append, List.length_singleton]
      omega
    rw [Option.toList_some, List.foldl_cons, List.foldl_nil, LineEdit.applyTo_part,
      st.lines_render whole]
    · rfl
    · dsimp only
      omega
    · dsimp only
      omega
  · rename_i same
    rw [st.lines_run_of_unchanged whole (by simpa using same)]
    rfl

end Stage

/-- A class of a buffer with the blank lines below it. -/
structure Row (s : Surroundings) where
  cls : ClassText
  stage : Stage s cls
  gap : List Text
  isGap : IsGap gap

namespace Row

variable {s : Surroundings}

def lines (row : Row s) : List Text :=
  row.stage.lines ++ row.gap

/-- The row once a run has written the members of the classes it is asked for. -/
def run (request : Request) (row : Row s) : Row s :=
  if request.named row.cls.plain then { row with stage := row.stage.run request.selector } else row

end Row

section Rows

variable {s : Surroundings}

def rowLines (rows : List (Row s)) : List Text :=
  rows.flatMap Row.lines

theorem rowLines_cons (row : Row s) (rest : List (Row s)) :
    rowLines (row :: rest) = row.lines ++ rowLines rest :=
  List.flatMap_cons

def rowDecls : Nat → List (Row s) → List ClassDecl
  | _, [] => []
  | lineNo, row :: rest => row.stage.decl lineNo :: rowDecls (lineNo + row.lines.length) rest

theorem isHeader_gap {gap : List Text} (blank : IsGap gap) :
    ∀ line ∈ gap, Header.isHeader line = false :=
  fun line member => isHeader_of_blank (Text.trim_of_isBlankText (blank line member).1)

theorem scanFrom_rowLines (rows : List (Row s)) (lineNo : Nat) (previous : Text) :
    scanFrom lineNo previous none (rowLines rows) = rowDecls lineNo rows := by
  induction rows generalizing lineNo previous with
  | nil => rfl
  | cons row rest ih =>
      have passed := scanFrom_passed (isHeader_gap row.isGap) (lineNo + row.stage.lines.length)
          "\x7d".toList (rowLines rest)
      rw [rowLines_cons, Row.lines, List.append_assoc, row.stage.scanFrom_lines, rowDecls, passed,
        ih, Row.lines, List.length_append, Nat.add_assoc]

theorem named_decl (request : Request) (row : Row s) (lineNo : Nat) :
    (request.named (row.stage.decl lineNo) && (row.stage.decl lineNo).isValid) =
    request.named row.cls.plain := by
  rw [row.stage.isValid_decl, Bool.and_true]
  rfl

/-- The edits of the classes take each class that is asked for to its next stage. -/
theorem edited_rowLines (request : Request) {rows : List (Row s)}
    (whole : ∀ line ∈ rowLines rows, '\n' ∉ line) (above : List Text) :
    (((((rowDecls (above.length + 1) rows).filter fun c => request.named c && c.isValid).map
        (draftFor s request.selector)).reverse.filterMap Draft.edit?).foldl
          (fun ls e => e.applyTo ls)
      (above ++ rowLines rows)) = above ++ rowLines (rows.map (Row.run request)) := by
  induction rows generalizing above with
  | nil => rfl
  | cons row rest ih =>
      have lower : ∀ line ∈ rowLines rest, '\n' ∉ line :=
        fun line member => whole line (List.mem_append_right _ member)
      have place : above.length + 1 + row.lines.length = (above ++ row.lines).length + 1 := by
        rw [List.length_append]
        omega
      have others := ih lower (above ++ row.lines)
      rw [rowLines_cons, rowDecls, place, List.filter_cons, named_decl, List.map_cons,
        rowLines_cons, Row.run]
      split
      · have inside : ∀ line ∈ row.stage.methods, '\n' ∉ line := by
          intro line member
          refine whole line (List.mem_append_left _
            (List.mem_append_left _ (List.mem_append_right _ ?_)))
          exact List.mem_append_left _ member
        have one := row.stage.edited inside request.selector above
            (row.gap ++ rowLines (rest.map (Row.run request)))
        rw [List.map_cons, List.reverse_cons, List.filterMap_append, List.foldl_append,
          ← List.append_assoc above, others]
        simp only [Row.lines, List.append_assoc] at one ⊢
        rw [← one]
        cases edit : (draftFor s request.selector (row.stage.decl (above.length + 1))).edit? <;>
          simp [edit]
      · rw [← List.append_assoc, others, List.append_assoc]

end Rows

end ValueClass.Fresh
