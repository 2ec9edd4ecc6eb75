import Mathlib.Data.List.Infix
import ValueClass.Proofs.Dart.ImportStatement
import ValueClass.Proofs.Generate.Frame

/-! # Statements in a run

A run rewrites the import block above the classes. The statements that the block does not
take apart are still together afterwards, and what became of the one that it does take
apart is known.
-/

namespace ValueClass

namespace LineEdit

theorem prefix_foldl_applyTo {edits : List LineEdit} {top lines : List Text}
    (stands : top <+: lines) (below : ∀ e ∈ edits, (top.length : Int) ≤ e.start) :
    top <+: edits.foldl (fun ls e => e.applyTo ls) lines := by
  induction edits generalizing lines with
  | nil => exact stands
  | cons e rest ih =>
      refine ih ?_ fun x member => below x (List.mem_cons_of_mem _ member)
      have start := below e (by simp)
      have bound := stands.length_le
      have first : top.length ≤ clampIndex lines.length e.start := by
        simp only [clampIndex]
        split <;> omega
      simp only [applyTo, List.append_assoc]
      exact (List.prefix_take_iff.mpr ⟨stands, first⟩).trans (List.prefix_append _ _)

end LineEdit

namespace Dart

theorem DraftsOf.le_start {text : Text} {drafts : List Draft} (pending : DraftsOf text drafts)
    {count : Nat} (higher : ∀ c ∈ scan text, count < c.firstLine) :
    ∀ e ∈ drafts.reverse.filterMap Draft.edit?, (count : Int) ≤ e.start := by
  intro e member
  obtain ⟨d, drafted, edit⟩ := List.mem_filterMap.mp member
  have drafted := List.mem_reverse.mp drafted
  obtain ⟨c, scanned, isOf⟩ := pending.class_of_mem drafted
  have := higher c scanned
  rw [Draft.edit?_eq_some (pending.standsIn drafted) edit, isOf.firstLine]
  dsimp only
  omega

end Dart

namespace Request

open Dart

variable {request : Request} {text : Text} {before after : Interview} {imports : Imports}
  {drafts : List Draft}

/-! ## A statement and a run -/

theorem asked_of_reviewed (left : (request.reviewed text).Returns before (imports, drafts) after) :
    Imports.Asked text request.project.packageName imports := by
  obtain ⟨-, indent, -, rfl, -⟩ := reviewed_returns.mp left
  rw [pending_eq]
  refine .requireAll (fun need member => ?_) .read
  obtain ⟨c, -, asked⟩ := List.mem_flatMap.mp member
  exact needsFor_subset _ _ c asked

theorem plan_of_reviewed (left : (request.reviewed text).Returns before (imports, drafts) after) :
    DraftsOf text drafts ∧ LineEdit.BottomUp text.lines.length (planEdits drafts imports) := by
  obtain ⟨isOf, needs, required⟩ := isOf_of_reviewed left
  have pending : DraftsOf text drafts := ⟨request.targets text, targets_sublist, isOf⟩
  refine ⟨pending, planEdits_bottomUp pending (asked_of_reviewed left).above fun c found => ?_⟩
  rw [required]
  exact Imports.requireAll_above needs (Imports.ofText_above_class _ found)

section Statement

variable {e : LineEdit} {front : List Text} {head : Text} {tail behind : List Text}

variable (left : (request.reviewed text).Returns before (imports, drafts) after)
  (edit : imports.edit? = some e)

include left edit

theorem lines_finish_of_top {top : List Text} (stands : top <+: text.lines)
    (higher : ∀ c ∈ scan text, top.length < c.firstLine) :
    ∃ below, (request.finish text imports drafts).code.lines = e.applyTo (top ++ below) := by
  obtain ⟨pending, plan⟩ := plan_of_reviewed left
  obtain ⟨below, edited⟩ := LineEdit.prefix_foldl_applyTo stands (pending.le_start higher)
  refine ⟨below, ?_⟩
  rw [finish, LineEdit.lines_applyAll, LineEdit.bottomUp_eq_self plan.descending, planEdits, edit,
    Option.toList_some, List.foldl_append, ← edited, List.foldl_cons, List.foldl_nil]

variable (statement : IsStatement text.lines front head tail behind)
  (higher : ∀ c ∈ scan text, front.length + tail.length + 1 < c.firstLine)

include statement higher

theorem lines_finish :
    ∃ below, (request.finish text imports drafts).code.lines =
      e.applyTo (front ++ head :: (tail ++ below)) := by
  have stands : front ++ head :: tail <+: text.lines := by
    rw [statement.place, ← List.cons_append, ← List.append_assoc]
    exact List.prefix_append _ _
  have size : front.length + tail.length + 1 = (front ++ head :: tail).length := by
    rw [List.length_append, List.length_cons, Nat.add_assoc]
  rw [size] at higher
  obtain ⟨below, lines⟩ := lines_finish_of_top left edit stands higher
  exact ⟨below, by rw [lines, List.append_assoc, List.cons_append]⟩

theorem infix_finish
    (apart : e.stop ≤ front.length ∨ (front.length + tail.length + 1 : Int) ≤ e.start) :
    head :: tail <:+: (request.finish text imports drafts).code.lines := by
  obtain ⟨pending, plan⟩ := plan_of_reviewed left
  have split : text.lines = front ++ head :: tail ++ behind := by
    rw [statement.place, List.append_assoc, List.cons_append]
  have size : ((head :: tail).length : Int) = tail.length + 1 := by simp
  rw [finish, LineEdit.lines_applyAll, LineEdit.bottomUp_eq_self plan.descending]
  rw [split] at plan ⊢
  refine LineEdit.infix_foldl plan fun x member => ?_
  rcases List.mem_append.mp member with member | member
  · have := pending.le_start higher x member
    omega
  · rw [edit, Option.toList_some, List.mem_singleton] at member
    rw [member]
    omega

theorem severed_finish (severs : imports.Severs front.length head tail) :
    imports.Severed head tail (request.finish text imports drafts).code.lines := by
  obtain ⟨below, lines⟩ := lines_finish left edit statement higher
  rw [lines]
  cases block : imports.block with
  | none =>
      simp only [Imports.Severs, block] at severs
      exact Imports.severed_of_insert edit block severs.1 severs.2 below
  | some range =>
      obtain ⟨first, last⟩ := range
      simp only [Imports.Severs, block] at severs
      obtain ⟨rfl, -, value, member, before⟩ := severs
      obtain ⟨top, other, stands, listed, -, behind⟩ :=
        (asked_of_reviewed left).applyTo_last edit block statement below
      exact .sorted listed (behind value member before) stands

/-- Every other statement is together, be it as it was or in the new block. -/
theorem whole_finish (kept : ¬ imports.Severs front.length head tail) :
    (head :: tail).map Text.trim <:+:
    (request.finish text imports drafts).code.lines.map Text.trim := by
  have asked := asked_of_reviewed left
  obtain ⟨below, lines⟩ := lines_finish left edit statement higher
  have stays := fun apart => (infix_finish left edit statement higher apart).map Text.trim
  cases block : imports.block with
  | none =>
      simp only [Imports.Severs, block] at kept
      refine stays ?_
      rw [Imports.edit?_of_none edit block]
      dsimp only
      omega
  | some range =>
      obtain ⟨first, last⟩ := range
      simp only [Imports.Severs, block] at kept
      have order := (asked.above.block first last block).1
      -- one line is a line of the new block
      have single : tail = [] → first ≤ front.length → front.length ≤ last →
          (head :: tail).map Text.trim <:+: (request.finish text imports drafts).code.lines.map
            Text.trim := by
        rintro rfl low high
        have listed := asked.head_listed block statement low high (statement.ends head rfl)
        have shown := asked.mem_applyTo edit block listed (front ++ head :: ([] ++ below))
        rw [lines, List.map_singleton, List.singleton_infix_iff, ← Text.trim_trim head]
        exact List.mem_map_of_mem shown
      rcases asked.beside block statement with higher | lower | ⟨none, low, high⟩
      · refine stays (.inr ?_)
        rw [Imports.edit?_of_block edit block]
        dsimp only
        omega
      · rcases Nat.lt_or_eq_of_le lower with apart | rfl
        · refine stays (.inl ?_)
          rw [Imports.edit?_of_block edit block]
          dsimp only
          omega
        · by_cases none : tail = []
          · exact single none order (Nat.le_refl _)
          · obtain ⟨top, other, stands, -, last, -⟩ := asked.applyTo_last edit block statement below
            have same : other = head.trim :=
              last fun value member before => kept ⟨rfl, none, value, member, before⟩
            refine ⟨top.map Text.trim, below.map Text.trim, ?_⟩
            rw [lines, stands, same]
            simp [Text.trim_trim]
      · exact single none low (Nat.le_of_lt high)

end Statement

/-- A run that rewrites the import block keeps a statement above the classes together, line by
    line, but for one that the block takes apart: then another directive, or the whole new
    block, stands between two of its lines. -/
theorem generate_statement {g : Generated}
    (returned : (request.generate text).Returns before g after) :
    ∃ imports drafts, (request.reviewed text).Returns before (imports, drafts) after ∧
      (imports.edit?.isSome → ∀ front head tail behind,
        IsStatement text.lines front head tail behind →
        (∀ c ∈ scan text, front.length + tail.length + 1 < c.firstLine) →
          (¬ imports.Severs front.length head tail →
            (head :: tail).map Text.trim <:+: g.code.lines.map Text.trim) ∧
            (imports.Severs front.length head tail → imports.Severed head tail g.code.lines)) := by
  obtain ⟨imports, drafts, left, rfl⟩ := generate_returns.mp returned
  refine ⟨imports, drafts, left, ?_⟩
  intro planned front head tail behind statement higher
  obtain ⟨e, edit⟩ := Option.isSome_iff_exists.mp planned
  exact ⟨whole_finish left edit statement higher, severed_finish left edit statement higher⟩

/-- Two imports that go on in a second line, and a member that calls a library: the first one
    is the block, and the library is written behind its first line. -/
theorem generate_statement_show :
    let request : Request := { selector := some .toJson }
    let text : Text :=
      Text.unlines ["import 'dart:async'", "    show Future;", "import 'package:a/a.dart'",
      "    show B;", "", "class A \x7b", "  final int x;", "\x7d"]
    ∃ g after, (request.generate text).Returns {} g after ∧
      ∃ imports drafts, (request.reviewed text).Returns {} (imports, drafts) after ∧
        imports.Severed "import 'dart:async'" ["    show Future;"] g.code.lines ∧
        ["import 'package:a/a.dart'", "    show B;"].map Text.trim <:+: g.code.lines.map
          Text.trim := by
  intro request text
  obtain ⟨found, higher, block, planned, package, needed⟩ : request.targets text ≠ [] ∧
      (∀ c ∈ scan text, 4 < c.firstLine) ∧ (request.pending text "  ").1.block = some (0, 0) ∧
      (request.pending text "  ").1.edit?.isSome ∧
        (request.pending text "  ").1.packageName = none ∧
      "import 'dart:convert';".toList ∈ (request.pending text "  ").1.values := by
    decide +kernel
  have style : request.style.indent? = .ok "  ".toList := rfl
  have returned := returns_written found style
  obtain ⟨imports, drafts, left, statements⟩ := generate_statement returned
  obtain ⟨known, -⟩ := reviewed_of_silent left style
  rw [← known] at block planned package needed
  have first : IsStatement text.lines [] "import 'dart:async'"
      ["    show Future;"] (text.lines.drop 2) :=
    ⟨by decide +kernel, by decide +kernel, by decide +kernel⟩
  have second : IsStatement text.lines ["import 'dart:async'",
    "    show Future;"] "import 'package:a/a.dart'"
      ["    show B;"] (text.lines.drop 4) :=
    ⟨by decide +kernel, by decide +kernel, by decide +kernel⟩
  have severs : imports.Severs 0 "import 'dart:async'" ["    show Future;"] := by
    simp only [Imports.Severs, block]
    refine ⟨trivial, by simp, "import 'dart:convert';", needed, .inr ?_⟩
    rw [package]
    decide +kernel
  have apart : ¬ imports.Severs 2 "import 'package:a/a.dart'" ["    show B;"] := by
    simp [Imports.Severs, block]
  refine ⟨_, _, returned, imports, drafts, left, ?_, ?_⟩
  · exact (statements planned _ _ _ _ first fun c found => by have := higher c found; simp; omega).2
      severs
  · exact (statements planned _ _ _ _ second fun c found => by simpa using higher c found).1 apart

end Request

end ValueClass
