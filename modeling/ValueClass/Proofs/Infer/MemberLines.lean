import ValueClass.Proofs.Infer.Layouts

/-! # Lines of generated members

The members of an inferred class are put in front of its last line, one level in. What is
then done to a file drops blank lines and the blanks at the end of a line, so every other
line of a member can be found in the file, whichever layout is chosen.
-/

namespace ValueClass

namespace Text

variable {ls pieces : List Text} {line t : Text}

theorem mem_lines_unlines {piece : Text} (listed : piece ∈ pieces) (inside : line ∈ piece.lines) :
    line ∈ (unlines pieces).lines := by
  rw [lines_unlines_flatMap (List.ne_nil_of_mem listed)]
  exact List.mem_flatMap_of_mem listed inside

theorem mem_squeezeBlankLines (some : line ≠ []) (after : Bool) (listed : line ∈ ls) :
    line ∈ squeezeBlankLines after ls := by
  obtain ⟨front, behind, rfl⟩ := List.append_of_mem listed
  rw [squeezeBlankLines_append front some]
  obtain ⟨rest, concat⟩ := squeezeBlankLines_concat front some after
  rw [concat]
  exact List.mem_append_left _ (List.mem_append_right _ List.mem_cons_self)

theorem mem_lines_tidy (framed : Framed t.trimmedLines) (some : trimEnd line ≠ [])
    (listed : line ∈ t.lines) :
    trimEnd line ∈ (tidy t).lines := by
  rw [tidy_eq framed, lines_append_feed, lines_unlines framed.squeeze.ne_nil]
  · exact List.mem_append_left _ (mem_squeezeBlankLines some false (List.mem_map_of_mem listed))
  · intro line member
    exact notMem_of_mem_trimmedLines (mem_of_mem_squeezeBlankLines member)

theorem mem_lines_between {before after : Text} (ends : after = [] ∨ ∃ rest, after = '\n' :: rest)
    (inside : line ∈ t.lines) : line ∈ (before ++ '\n' :: (t ++ after)).lines := by
  rw [lines_append_feed]
  refine List.mem_append_right _ ?_
  rcases ends with rfl | ⟨rest, rfl⟩
  · rwa [List.append_nil]
  · rw [lines_append_feed]
    exact List.mem_append_left _ inside

end Text

open Dart

namespace Dart

/-- What is appended for a member that is not there. -/
theorem mem_lines_appended {s : Surroundings} {c : ClassDecl} {kinds : List MemberKind}
    {kind : MemberKind} {line : Text} (fresh : present? c kind = none)
    (method : kind ≠ .constructor) (written : kind ∈ kinds)
    (inside : line ∈ (Text.indentBlock s.indent (methodText s c kind)).lines) :
    line ∈ Text.lines (kinds.flatMap (appendedFor s c)) := by
  have feeds : ∀ kinds : List MemberKind, kinds.flatMap (appendedFor s c) = [] ∨
      ∃ rest, kinds.flatMap (appendedFor s c) = '\n' :: rest := by
    intro kinds
    induction kinds with
    | nil => exact .inl rfl
    | cons first rest ih =>
        rw [List.flatMap_cons, appendedFor]
        split
        · exact .inr ⟨_, rfl⟩
        · exact ih
  have appended : appendedFor s c kind = '\n' :: Text.indentBlock s.indent (methodText s c kind) :=
    if_pos ⟨method, fresh⟩
  obtain ⟨before, after, rfl⟩ := List.append_of_mem written
  rw [List.flatMap_append, List.flatMap_cons, appended, List.cons_append]
  exact Text.mem_lines_between (feeds after) inside

theorem appended_mem_bodyTexts {d : Draft} (nothing : d.replacements = [])
    (some : d.appended ≠ []) (closing : Text) (body written : List Text) (lineNo : Nat) :
    d.appended ∈ d.bodyTexts written lineNo (body ++ [closing]) := by
  have uncovered : ∀ i, d.replacementAt? i = none := by
    intro i
    rw [Draft.replacementAt?, nothing]
    rfl
  induction body generalizing lineNo with
  | nil =>
      have appends : (true && !d.appended.isEmpty) = true := by simpa using some
      rw [List.nil_append, Draft.bodyTexts, Draft.lineTexts, uncovered]
      simp [appends]
  | cons line rest ih =>
      rw [List.cons_append, Draft.bodyTexts, Draft.lineTexts, uncovered]
      exact List.mem_append_right _ (ih _)

end Dart

namespace Infer

variable {style : Style} {test : DateTest} {indent named line : Text} {members : List (Text × Json)}
  {s : Surroundings}
  {kind : MemberKind}

theorem mem_kindsFor_classFor (enabled : s.style.enables s.style.usesEquatable kind) :
    kind ∈ kindsFor s.style (classFor style test indent named members).header none := by
  have listed : kind ∈ MemberKind.all := by cases kind <;> decide
  have alone : (classFor style test indent named members).header.usesEquatable = false := rfl
  exact List.mem_filter.mpr ⟨listed, by rwa [alone, Bool.or_false]⟩

/-- The lines of a member, one level in, are lines of the class. -/
theorem mem_lines_classText (usable : style.indent? = .ok indent)
    (valid : (classFor style test indent named members).isValid)
    (enabled : s.style.enables s.style.usesEquatable kind) (method : kind ≠ .constructor)
    (inside : line ∈ (Text.indentBlock s.indent
      (methodText s (classFor style test indent named members) kind)).lines) :
    line ∈ (classText s (classFor style test indent named members)).lines := by
  let c := classFor style test indent named members
  let d := writtenDraft s none c
  have drafted : d = draftFor s none c := if_pos valid
  have lines : line ∈ d.appended.lines := by
    rw [drafted, (draftFor_pending s none c).2.1]
    exact mem_lines_appended (present?_classFor usable kind) method
      (mem_kindsFor_classFor enabled) inside
  have some : d.appended ≠ [] := by
    intro nothing
    rw [drafted, (draftFor_pending s none c).2.1, List.flatMap_eq_nil_iff] at nothing
    have appended : appendedFor s c kind = '\n' :: _ :=
      if_pos ⟨method, present?_classFor usable kind⟩
    have empty := nothing kind (mem_kindsFor_classFor enabled)
    rw [appended] at empty
    cases empty
  have body : d.decl.lines = opening (Name.className named) ::
      (c.fields.map (declaration indent) ++ ["\x7d".toList]) := by
    rw [← lines_classFor usable]
    exact (alike_writtenDraft s none c).lines
  show line ∈ (Draft.render d).lines
  rw [Draft.render, body]
  refine Text.mem_lines_unlines (List.mem_cons_of_mem _ (List.mem_append_right _ ?_)) lines
  exact appended_mem_bodyTexts (replacements_writtenDraft usable) some _ _ _ _

theorem mem_lines_heading {block : List Text} {t : Text} (inside : line ∈ t.lines) :
    line ∈ (heading block ++ t).lines := by
  induction block with
  | nil => exact inside
  | cons text rest ih =>
      rw [heading, List.flatMap_cons, List.append_assoc, List.append_assoc, List.cons_append,
        List.cons_append, List.nil_append, Text.lines_append_feed, Text.lines_cons_feed]
      exact List.mem_append_right _ (List.mem_cons_of_mem _ ih)

/-- In both layouts a file holds the formatted text of a class. -/
theorem LayoutsAgree.exists_file {together apart : List GeneratedFile} {block : List Text}
    {blocks : List (List Text)} {texts crossed : List Text}
    (agree : LayoutsAgree together apart block blocks texts crossed) {text : Text}
    (listed : text ∈ texts) {files : List GeneratedFile}
    (layout : files = together ∨ files = apart) :
    ∃ file ∈ files, ∀ line ∈ (Text.tidy text).lines, line ∈ file.content.lines := by
  rcases layout with rfl | rfl
  · obtain ⟨file, rfl, content⟩ := List.map_eq_singleton_iff.mp agree.single
    refine ⟨file, List.mem_singleton_self _, fun line inside => ?_⟩
    rw [content, agree.singlePart]
    exact mem_lines_heading (Text.mem_lines_unlines (List.mem_map_of_mem listed) inside)
  · obtain ⟨i, found⟩ := List.mem_iff_getElem?.mp listed
    obtain ⟨within, -⟩ := List.getElem?_eq_some_iff.mp found
    obtain ⟨block, own⟩ : ∃ block, blocks[i]? = some block :=
      ⟨_, List.getElem?_eq_getElem (by rw [agree.sizes]; exact within)⟩
    have content : Text.tidy (Text.join "\n\n" (block ++ [text])) ∈ files.map (·.content) := by
      rw [agree.separate]
      refine List.mem_iff_getElem?.mpr ⟨i, ?_⟩
      rw [List.getElem?_zipWith, own, found]
    obtain ⟨file, member, content⟩ := List.mem_map.mp content
    refine ⟨file, member, fun line inside => ?_⟩
    rw [content, agree.separatePart block (List.mem_of_getElem? own) text listed]
    exact mem_lines_heading inside

end Infer

namespace JsonRequest

variable {request : JsonRequest} {found : List ClassDecl}

/-- For each class there is a file with the lines of its members. -/
theorem memberLines_mem (accepted : request.inferred = .ok found) :
    ∃ indent, request.style.indent? = .ok indent ∧
      ∀ before g after, request.generate.Returns before g after → ∀ c ∈ found, c.isValid →
        ∃ file ∈ g.files,
        ∀ kind ≠ .constructor, request.style.enables request.style.usesEquatable kind →
          ∀ line ∈ (methodText (request.surroundings indent) c kind).lines,
            line.isBlankText = false →
            Text.trimEnd (indent ++ line) ∈ file.content.lines := by
  obtain ⟨indent, usable, -, returned, agree⟩ := written_of_accepted accepted
  refine ⟨indent, usable, ?_⟩
  intro before g after generated c kept valid
  obtain ⟨width, root, read, each, -⟩ := Infer.visited_of_classes accepted
  obtain rfl : indent = width := Except.ok.inj (usable.symm.trans read.usable)
  obtain ⟨named, members, -, rfl⟩ := each c kept
  have files : g.files = (request.written found indent false).files ∨
      g.files = (request.written found indent true).files := by
    rw [returned before g after generated]
    cases g.separate with
    | false => exact .inl rfl
    | true => exact .inr rfl
  obtain ⟨file, member, lines⟩ := agree.exists_file (List.mem_map_of_mem kept) files
  refine ⟨file, member, fun kind method enabled line inside solid => lines _ ?_⟩
  refine Text.mem_lines_tidy (Infer.framed_classText usable) ?_
    (Infer.mem_lines_classText usable valid enabled method ?_)
  · intro none
    obtain ⟨blanks, blank, whole⟩ := Text.trimEnd_append_blank (indent ++ line)
    rw [none, List.nil_append] at whole
    rw [← whole, Text.isBlankText, List.all_append, Bool.and_eq_true] at blank
    rw [Text.isBlankText, blank.2] at solid
    cases solid
  · have noFeed : '\n' ∉ (request.surroundings indent).indent :=
      (Infer.isDeclared_indent read.usable).notMem (by decide)
    rw [lines_indentBlock noFeed]
    refine List.mem_map.mpr ⟨line, inside, ?_⟩
    exact indented_of_solid solid _

end JsonRequest

end ValueClass
