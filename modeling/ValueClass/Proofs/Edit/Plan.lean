import Mathlib.Data.List.Forall2
import ValueClass.Edit.Plan
import ValueClass.Member.Write
import ValueClass.Proofs.Dart.ImportBlock
import ValueClass.Proofs.Edit.Splice

/-! # The plan of edits

Whatever is pending for the classes of a buffer, and whatever libraries were
asked for, the planned edits come from the bottom up and do not meet. The plan
is then applied as one simultaneous splice.
-/

namespace ValueClass.Dart

/-- A draft of a class: pending changes reach its header and no other part of
    what was read. -/
def Draft.IsOf (d : Draft) (c : ClassDecl) : Prop :=
  d.decl = { c with header := d.decl.header }

namespace Draft.IsOf

variable {d : Draft} {c : ClassDecl}

theorem firstLine (h : d.IsOf c) : d.decl.firstLine = c.firstLine := by
  rw [IsOf] at h
  rw [h]

theorem lastLine (h : d.IsOf c) : d.decl.lastLine = c.lastLine := by
  rw [IsOf] at h
  rw [h]

theorem lines (h : d.IsOf c) : d.decl.lines = c.lines := by
  rw [IsOf] at h
  rw [h]

theorem fields (h : d.IsOf c) : d.decl.fields = c.fields := by
  rw [IsOf] at h
  rw [h]

theorem ctor (h : d.IsOf c) : d.decl.ctor = c.ctor := by
  rw [IsOf] at h
  rw [h]

theorem standsIn {buffer : List Text} (h : d.IsOf c) (stands : c.StandsIn buffer) :
    d.decl.StandsIn buffer := by
  refine ⟨?_, ?_, ?_⟩
  · rw [h.lines, h.firstLine]
    exact stands.place
  · rw [h.lines]
    exact stands.header
  · rw [h.lines, h.firstLine, h.lastLine]
    exact stands.ending

end Draft.IsOf

theorem Draft.exists_isOf {drafts : List Draft} {classes : List ClassDecl}
    (pending : List.Forall₂ Draft.IsOf drafts classes) {d : Draft} (member : d ∈ drafts) :
    ∃ c ∈ classes, d.IsOf c := by
  induction pending with
  | nil => simp at member
  | @cons first c drafts classes isOf pending ih =>
      rcases List.mem_cons.mp member with rfl | member
      · exact ⟨c, by simp, isOf⟩
      · obtain ⟨c', found, isOf'⟩ := ih member
        exact ⟨c', List.mem_cons_of_mem _ found, isOf'⟩

/-- Drafts of some classes of a buffer, in source order. -/
def DraftsOf (text : Text) (drafts : List Draft) : Prop :=
  ∃ classes, classes.Sublist (scan text) ∧ List.Forall₂ Draft.IsOf drafts classes

namespace DraftsOf

variable {text : Text} {drafts : List Draft}

theorem class_of_mem (h : DraftsOf text drafts) {d : Draft} (member : d ∈ drafts) :
    ∃ c ∈ scan text, d.IsOf c := by
  obtain ⟨classes, some, pending⟩ := h
  obtain ⟨c, found, isOf⟩ := Draft.exists_isOf pending member
  exact ⟨c, some.subset found, isOf⟩

theorem standsIn (h : DraftsOf text drafts) {d : Draft} (member : d ∈ drafts) :
    d.decl.StandsIn text.lines := by
  obtain ⟨c, found, isOf⟩ := h.class_of_mem member
  exact isOf.standsIn (standsIn_of_mem_scan found)

theorem ordered (h : DraftsOf text drafts) :
    drafts.Pairwise fun a b => a.decl.Before b.decl := by
  obtain ⟨classes, some, pending⟩ := h
  have sorted := (scan_ordered text).sublist some
  clear some
  induction pending with
  | nil => exact List.Pairwise.nil
  | @cons d c drafts classes isOf pending ih =>
      obtain ⟨first, others⟩ := List.pairwise_cons.mp sorted
      refine List.pairwise_cons.mpr ⟨?_, ih others⟩
      intro later member
      obtain ⟨c', found, isOf'⟩ := Draft.exists_isOf pending member
      have before := first c' found
      rw [ClassDecl.Before] at before ⊢
      rwa [isOf.firstLine, isOf.lines, isOf'.firstLine]

end DraftsOf

theorem Draft.edit?_eq_some {buffer : List Text} {d : Draft} {e : LineEdit}
    (stands : d.decl.StandsIn buffer) (h : d.edit? = some e) :
    e = { start := (d.decl.firstLine : Int) - 1
          stop := (d.decl.firstLine : Int) - 1 + d.decl.lines.length
          text := d.render } := by
  simp only [edit?] at h
  split at h
  · rename_i last ending
    split at h
    · have := stands.ending last ending
      cases h
      simp only [LineEdit.mk.injEq, true_and, and_true]
      omega
    · simp at h
  · simp at h

theorem Imports.edit?_above {imports : Imports} {limit : Nat} {e : LineEdit}
    (above : imports.Above limit) (h : imports.edit? = some e) :
    0 ≤ e.start ∧ e.start ≤ e.stop ∧ e.stop ≤ limit := by
  simp only [edit?] at h
  split at h
  · split at h
    · rename_i first last block
      have := above.block first last block
      cases h
      dsimp only
      omega
    · have := above.insertLine
      cases h
      dsimp only
      omega
  · simp at h

theorem Imports.requireAll_above {imports : Imports} {limit : Nat} (needs : List LibraryNeed)
    (above : imports.Above limit) : (imports.requireAll needs).Above limit := by
  rw [requireAll]
  induction needs generalizing imports with
  | nil => exact above
  | cons need rest ih =>
      apply ih
      refine ⟨?_, ?_⟩
      · rw [require_insertLine]
        exact above.insertLine
      · rw [require_block]
        exact above.block

theorem exists_draft_of_classEdit {text : Text} {drafts : List Draft}
    (pending : DraftsOf text drafts) {e : LineEdit}
    (member : e ∈ drafts.reverse.filterMap Draft.edit?) :
    ∃ d ∈ drafts, e.start = (d.decl.firstLine : Int) - 1 ∧
      e.stop = (d.decl.firstLine : Int) - 1 + d.decl.lines.length := by
  obtain ⟨d, found, edit⟩ := List.mem_filterMap.mp member
  have found := List.mem_reverse.mp found
  have replaced := Draft.edit?_eq_some (pending.standsIn found) edit
  exact ⟨d, found, by rw [replaced], by rw [replaced]⟩

theorem classEdits_apart {text : Text} {drafts : List Draft} (pending : DraftsOf text drafts) :
    (drafts.reverse.filterMap Draft.edit?).Pairwise fun lower upper =>
      upper.stop ≤ lower.start ∧ upper.start < lower.start := by
  rw [List.pairwise_filterMap, List.pairwise_reverse]
  refine List.Pairwise.imp_of_mem ?_ pending.ordered
  intro a b first second before e edit e' edit'
  have stands := pending.standsIn first
  have := stands.bound
  obtain ⟨line, body, lines, -⟩ := stands.header
  have := congrArg List.length lines
  rw [ClassDecl.Before] at before
  rw [Draft.edit?_eq_some (pending.standsIn second) edit, Draft.edit?_eq_some stands edit']
  simp only [List.length_cons] at this
  dsimp only
  omega

theorem importEdit_above {text : Text} {drafts : List Draft} {imports : Imports}
    (pending : DraftsOf text drafts) (above : ∀ c ∈ scan text, imports.Above (c.firstLine - 1))
    {e i : LineEdit} (member : e ∈ drafts.reverse.filterMap Draft.edit?)
    (found : i ∈ imports.edit?.toList) :
    i.stop ≤ e.start ∧ i.isAbove e := by
  obtain ⟨d, drafted, start, stop⟩ := exists_draft_of_classEdit pending member
  obtain ⟨c, scanned, isOf⟩ := pending.class_of_mem drafted
  have stands := pending.standsIn drafted
  have := stands.bound
  obtain ⟨line, body, lines, -⟩ := stands.header
  have size := congrArg List.length lines
  have := Imports.edit?_above (above c scanned) (Option.mem_toList.mp found)
  rw [← isOf.firstLine] at this
  rw [LineEdit.isAbove_iff, start, stop]
  simp only [List.length_cons] at size
  omega

/-- The planned edits come from the bottom up and do not meet. -/
theorem planEdits_bottomUp {text : Text} {drafts : List Draft} {imports : Imports}
    (pending : DraftsOf text drafts) (inside : imports.Above text.lines.length)
    (above : ∀ c ∈ scan text, imports.Above (c.firstLine - 1)) :
    LineEdit.BottomUp text.lines.length (planEdits drafts imports) := by
  have classes := classEdits_apart pending
  refine ⟨?_, ?_, ?_⟩
  · intro e member
    rcases List.mem_append.mp member with member | member
    · obtain ⟨d, drafted, start, stop⟩ := exists_draft_of_classEdit pending member
      have := (pending.standsIn drafted).bound
      rw [start, stop]
      omega
    · exact Imports.edit?_above inside (Option.mem_toList.mp member)
  · refine List.pairwise_append.mpr
      ⟨classes.imp fun h => h.1, ?_, fun e he i hi => (importEdit_above pending above he hi).1⟩
    cases imports.edit? <;> simp
  · refine List.pairwise_append.mpr
      ⟨classes.imp fun h => ?_, ?_, fun e he i hi => (importEdit_above pending above he hi).2⟩
    · exact LineEdit.isAbove_iff.mpr (.inl h.2)
    · cases imports.edit? <;> simp

/-- Edits planned with libraries for the block of a buffer come from the bottom to the top. -/
theorem bottomUp_requireAll {text : Text} {packageName : Option Text} (needs : List LibraryNeed)
    {drafts : List Draft} (pending : DraftsOf text drafts) :
    LineEdit.BottomUp text.lines.length
      (planEdits drafts ((Imports.ofText text packageName).requireAll needs)) := by
  apply planEdits_bottomUp pending
  · exact Imports.requireAll_above needs (Imports.ofText_inside text packageName)
  · intro c found
    exact Imports.requireAll_above needs (Imports.ofText_above_class packageName found)

/-- Edits planned for a buffer lie inside it, are disjoint and strictly descend,
    the one of the import block comes last and above the others, and applying
    them is the simultaneous splice. -/
theorem planEdits_splice (text : Text) (packageName : Option Text) (needs : List LibraryNeed)
    (drafts : List Draft) (pending : DraftsOf text drafts) :
    let imports := (Imports.ofText text packageName).requireAll needs
    let edits := planEdits drafts imports
    LineEdit.BottomUp text.lines.length edits ∧
      (∀ block, imports.edit? = some block → ∃ classEdits, edits = classEdits ++ [block] ∧
        ∀ e ∈ classEdits, block.stop ≤ e.start) ∧
      LineEdit.applyAll edits text = LineEdit.splice edits text := by
  intro imports edits
  have plan : LineEdit.BottomUp text.lines.length edits := bottomUp_requireAll needs pending
  refine ⟨plan, ?_, LineEdit.applyAll_eq_splice plan⟩
  intro block edit
  have whole : edits = drafts.reverse.filterMap Draft.edit? ++ [block] := by
    simp [edits, planEdits, edit]
  refine ⟨_, whole, ?_⟩
  intro e member
  have disjoint := plan.disjoint
  rw [whole] at disjoint
  exact (List.pairwise_append.mp disjoint).2.2 e member block (by simp)

/-- A member for each of two classes and a library for them. -/
theorem planEdits_splice_two :
    let text : Text := "// c\nclass A \x7b\n int a;\n\x7d\nclass B \x7b\n int b;\n\x7d"
    let drafts := (scan text).map fun decl => { decl, appended := "\n  m" : Draft }
    DraftsOf text drafts ∧
      let imports := (Imports.ofText text none).requireAll [convertLibrary]
      let edits := planEdits drafts imports
      LineEdit.BottomUp text.lines.length edits ∧
        (∀ block, imports.edit? = some block → ∃ classEdits, edits = classEdits ++ [block] ∧
          ∀ e ∈ classEdits, block.stop ≤ e.start) ∧
        LineEdit.applyAll edits text = LineEdit.splice edits text := by
  intro text drafts
  have pending : DraftsOf text drafts := by
    refine ⟨scan text, List.Sublist.refl _, ?_⟩
    rw [List.forall₂_map_left_iff]
    exact List.forall₂_same.mpr fun c _ => rfl
  exact ⟨pending, planEdits_splice text none [convertLibrary] drafts pending⟩

end ValueClass.Dart
