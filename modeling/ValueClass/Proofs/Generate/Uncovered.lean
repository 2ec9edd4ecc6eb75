import ValueClass.Proofs.Generate.Statement
import ValueClass.Proofs.Text.Lines

/-! # A line that no edit covers

Such a line stands in the result as it stood in the buffer, behind what is made of the lines
above it and in front of what is made of those below it. It is the last line there just when
it was the last one.
-/

namespace ValueClass

open Text (closing)

namespace LineEdit

variable {edits : List LineEdit} {index : Nat}

theorem spliceFrom_append_cons (top bottom : List Text) (line : Text)
    (uncovered : edits.any (·.covers (index + top.length)) = false) :
    spliceFrom edits index (top ++ line :: bottom) =
      spliceFrom edits index top ++ line :: spliceFrom edits (index + top.length + 1) bottom := by
  induction top generalizing index with
  | nil =>
      rw [List.length_nil, Nat.add_zero] at uncovered
      simp [spliceFrom, uncovered]
  | cons first top ih =>
      rw [List.length_cons, Nat.add_comm top.length, ← Nat.add_assoc] at uncovered ⊢
      rw [List.cons_append, spliceFrom, spliceFrom, ih uncovered]
      simp only [List.append_assoc]

theorem textsAt_ne_nil {e : LineEdit} (member : e ∈ edits) (start : e.start = index) :
    textsAt edits index ≠ [] := by
  intro none
  have here : e ∈ edits.filter fun x => x.start == (index : Int) :=
    List.mem_filter.mpr ⟨member, by simpa using start⟩
  rw [textsAt, List.append_eq_nil_iff, List.flatMap_eq_nil_iff, List.flatMap_eq_nil_iff] at none
  by_cases insertion : e.isInsertion
  · exact Text.lines_ne_nil _ (none.1 e (List.mem_filter.mpr ⟨here, insertion⟩))
  · exact Text.lines_ne_nil _ (none.2 e (List.mem_filter.mpr ⟨here, by simpa using insertion⟩))

theorem spliceFrom_ne_nil (uncovered : edits.any (·.covers index) = false) (line : Text)
    (rest : List Text) :
    spliceFrom edits (index + 1) (line :: rest) ≠ [] := by
  rw [spliceFrom]
  cases taken : edits.any (·.covers (index + 1)) with
  | false => simp
  | true =>
      obtain ⟨e, member, covers⟩ := List.any_eq_true.mp taken
      have free := List.any_eq_false.mp uncovered e member
      simp only [LineEdit.covers, Bool.and_eq_true, decide_eq_true_eq, not_and,
        Int.not_lt] at covers free
      have start : e.start = (index + 1 : Nat) := by
        push_cast at covers ⊢
        omega
      simp [textsAt_ne_nil member start]

theorem closing_spliceFrom (uncovered : edits.any (·.covers index) = false) (bottom : List Text)
    (inside : ∀ e ∈ edits, e.start < (index + 1 + bottom.length : Nat)) :
    closing (spliceFrom edits (index + 1) bottom) = closing bottom := by
  cases bottom with
  | nil =>
      rw [List.length_nil, Nat.add_zero] at inside
      rw [spliceFrom, textsAt_eq_nil fun e member => (inside e member).ne]
  | cons line rest =>
      obtain ⟨first, more, some⟩ :=
        List.exists_cons_of_ne_nil (spliceFrom_ne_nil uncovered line rest)
      rw [some]
      rfl

theorem splice_of_uncovered {text line : Text} {top bottom : List Text}
    (place : text.lines = top ++ line :: bottom)
    (uncovered : edits.any (·.covers top.length) = false)
    (inside : ∀ e ∈ edits, e.start < text.lines.length) :
    splice edits text = ((spliceFrom edits 0 top).flatMap fun upper => upper ++ ['\n']) ++
      (line ++ closing bottom) ++
      Text.unlines (spliceFrom edits (top.length + 1) bottom) := by
  have lower : ∀ e ∈ edits, e.start < (top.length + 1 + bottom.length : Nat) := by
    rw [place] at inside
    intro e member
    have := inside e member
    simp only [List.length_append, List.length_cons] at this
    omega
  rw [splice, place, spliceFrom_append_cons top bottom line (by rwa [Nat.zero_add]), Nat.zero_add,
    Text.unlines_append_cons, closing_spliceFrom uncovered bottom lower]

end LineEdit

namespace Request

open Dart

variable {request : Request} {text : Text} {before after : Interview} {g : Generated}

/-- Every edit starts at a line of the buffer: the import block lies above some class. -/
theorem start_lt_of_reviewed {imports : Imports} {drafts : List Draft}
    (left : (request.reviewed text).Returns before (imports, drafts) after) :
    ∀ e ∈ planEdits drafts imports, e.start < text.lines.length := by
  obtain ⟨pending, -⟩ := plan_of_reviewed left
  have low {c : ClassDecl} (found : c ∈ scan text) : c.firstLine ≤ text.lines.length := by
    have stands := standsIn_of_mem_scan found
    obtain ⟨line, body, lines, -⟩ := stands.header
    have bound := stands.bound
    rw [lines, List.length_cons] at bound
    omega
  intro e member
  rcases List.mem_append.mp member with member | member
  · obtain ⟨d, drafted, edit⟩ := List.mem_filterMap.mp member
    have drafted := List.mem_reverse.mp drafted
    obtain ⟨c, found, isOf⟩ := pending.class_of_mem drafted
    have := low found
    rw [Draft.edit?_eq_some (pending.standsIn drafted) edit, isOf.firstLine]
    dsimp only
    omega
  · obtain ⟨c, target⟩ := List.exists_mem_of_ne_nil _ (reviewed_returns.mp left).1
    have found := targets_sublist.subset target
    obtain ⟨-, needs, required⟩ := isOf_of_reviewed left
    rw [required] at member
    have := Imports.edit?_above
        (Imports.requireAll_above needs (Imports.ofText_above_class _ found))
      (Option.mem_toList.mp member)
    have := (standsIn_of_mem_scan found).bound
    have := low found
    omega

theorem generate_uncovered (returned : (request.generate text).Returns before g after) {line : Text}
    {top bottom : List Text} (place : text.lines = top ++ line :: bottom)
    (uncovered : g.edits.any (·.covers top.length) = false) :
    g.code = ((LineEdit.spliceFrom g.edits 0 top).flatMap fun upper => upper ++ ['\n']) ++
      (line ++ closing bottom) ++
      Text.unlines (LineEdit.spliceFrom g.edits (top.length + 1) bottom) := by
  obtain ⟨imports, drafts, left, rfl⟩ := generate_returns.mp returned
  have code : (request.finish text imports drafts).code =
      LineEdit.splice (planEdits drafts imports) text :=
    LineEdit.applyAll_eq_splice (plan_of_reviewed left).2
  rw [code]
  exact LineEdit.splice_of_uncovered place uncovered (start_lt_of_reviewed left)

end Request

end ValueClass
