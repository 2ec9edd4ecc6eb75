import Mathlib.Data.List.Flatten
import ValueClass.Proofs.Dart.ImportReading

/-! # Rewriting the import block

Whatever directives are added to those of a buffer, the block that is written holds each
of them once and loses none, and the buffer with the new block has nothing left to be
rewritten.
-/

namespace ValueClass.Dart.Imports

/-- The directives of a buffer after some were added, as they are or for a library. Each line
    that is added holds one directive. -/
inductive Asked (text : Text) (packageName : Option Text) : Imports → Prop where
  | read : Asked text packageName (ofText text packageName)
  | push {imports : Imports} {line : Text} (before : Asked text packageName imports)
    (entry : IsEntry line) :
      Asked text packageName (imports.push line)
  | require {imports : Imports} {path : Text} {umbrellas : List Text}
    (before : Asked text packageName imports)
    (entry : imports.lacks path umbrellas → IsEntry (importLine path)) :
      Asked text packageName (imports.require path umbrellas)

theorem isEntry_of_mem_ofText {text : Text} {packageName : Option Text} {value : Text}
    (member : value ∈ (ofText text packageName).values) : IsEntry value := by
  rcases mem_values_readFrom member with none | ⟨line, inside, directive, rfl⟩
  · cases none
  · exact isEntry_trim directive (Text.notMem_of_mem_lines inside)

theorem require_eq (imports : Imports) (path : Text) (umbrellas : List Text) :
    imports.require path umbrellas = { imports with
      values := imports.values ++ if imports.lacks path umbrellas then [importLine path]
        else [] } := by
  rw [require]
  split <;> simp [push]

namespace Asked

variable {text : Text} {packageName : Option Text} {imports : Imports}

/-- Nothing but the directives changes, and only directives are added. -/
theorem values (h : Asked text packageName imports) :
    ∃ added, imports = { ofText text packageName with values :=
      (ofText text packageName).values ++ added } ∧
      ∀ value ∈ imports.values, IsEntry value := by
  induction h with
  | read => exact ⟨[], by simp, fun value => isEntry_of_mem_ofText⟩
  | @push imports line before entry ih =>
      obtain ⟨added, same, entries⟩ := ih
      refine ⟨added ++ [line], ?_, ?_⟩
      · rw [Imports.push, same]
        simp
      · intro value member
        rcases List.mem_append.mp member with member | new
        · exact entries value member
        · rw [List.mem_singleton.mp new]
          exact entry
  | @require imports path umbrellas before entry ih =>
      obtain ⟨added, same, entries⟩ := ih
      refine ⟨added ++ if imports.lacks path umbrellas then [importLine path] else [], ?_, ?_⟩
      · rw [require_eq]
        generalize (if imports.lacks path umbrellas then [importLine path] else []) = new
        rw [same]
        simp
      · intro value member
        rw [require_eq] at member
        rcases List.mem_append.mp member with member | new
        · exact entries value member
        · split at new
          · rename_i lacks
            rw [List.mem_singleton.mp new]
            exact entry lacks
          · cases new

/-- Every line of the old block is blank or is written again. -/
theorem keeps_lines (h : Asked text packageName imports) {first last i : Nat}
    (block : imports.block = some (first, last)) (low : first ≤ i) (high : i ≤ last) :
    ∃ line, text.lines[i]? = some line ∧ (line.isBlankText ∨ line.trim ∈ imports.values) := by
  obtain ⟨added, same, -⟩ := h.values
  obtain ⟨above, body, gap, rest, after, split, -, directives, -, -, read, place⟩ :=
    ofText_cases text packageName
  rw [same] at block
  have block : (ofText text packageName).block = some (first, last) := block
  rcases place with ⟨-, none, -⟩ | ⟨some, known⟩
  · rw [none] at block
    cases block
  · rw [known, Option.some.injEq, Prod.mk.injEq] at block
    have size : body.length ≠ 0 := by simpa using some
    have inside : i - above.length < body.length := by omega
    refine ⟨body[i - above.length], ?_, ?_⟩
    · rw [split, List.getElem?_append_right (by omega), List.getElem?_append_left inside,
        List.getElem?_eq_getElem inside]
    · have member : body[i - above.length] ∈ body := List.getElem_mem inside
      rcases directives _ member with directive | blank
      · refine .inr ?_
        rw [same, read]
        exact List.mem_append_left _ (List.mem_map_of_mem (List.mem_filter.mpr ⟨member, directive⟩))
      · exact .inl (Text.isBlankText_of_trim blank)

/-- The lines of a buffer with its block rewritten: what was passed above, the new block, and
    what reading ends before. -/
theorem lines_rewritten (h : Asked text packageName imports) {e : LineEdit}
    (edit : imports.edit? = some e) :
    ∃ above gap rest after, (LineEdit.applyAll [e] text).lines =
      above ++ (imports.formatted.lines ++ gap ++ rest) ∧
      Leads false above after ∧ (∀ line ∈ gap, line.trim = []) ∧ Halts rest := by
  obtain ⟨added, same, -⟩ := h.values
  obtain ⟨above, body, gap, rest, after, split, leads, -, blanks, halts, -, place⟩ :=
    ofText_cases text packageName
  have block : imports.block = (ofText text packageName).block := by rw [same]
  have insertLine : imports.insertLine = (ofText text packageName).insertLine := by rw [same]
  have applied : (LineEdit.applyAll [e] text).lines = e.applyTo text.lines :=
    LineEdit.lines_applyAll [e] text
  rw [edit?] at edit
  split at edit
  · rcases place with ⟨rfl, none, known⟩ | ⟨some, known⟩
    · rw [block, none, insertLine, known] at edit
      cases edit
      refine ⟨above, [] :: gap, rest, after, ?_, leads, ?_, halts⟩
      · rw [applied, split, LineEdit.applyTo_part rfl (by simp),
          show "\n".toList = '\n' :: [] from rfl, Text.lines_append_feed]
        simp
      · simpa using ⟨(rfl : Text.trim [] = []), blanks⟩
    · rw [block, known] at edit
      cases edit
      refine ⟨above, gap, rest, after, ?_, leads, blanks, halts⟩
      have size : body.length ≠ 0 := by simpa using some
      rw [applied, split, LineEdit.applyTo_part rfl]
      · simp only [List.append_assoc]
      · dsimp only
        omega
  · cases edit

theorem packageName_eq (h : Asked text packageName imports) :
    imports.packageName = packageName := by
  obtain ⟨added, same, -⟩ := h.values
  obtain ⟨above, body, gap, rest, after, -, -, -, -, -, taken, -⟩ := ofText_cases text packageName
  rw [same, taken]

/-- Without directives there is nothing to be rewritten. -/
theorem values_ne_nil (h : Asked text packageName imports) {e : LineEdit}
    (edit : imports.edit? = some e) :
    imports.values ≠ [] := by
  intro none
  obtain ⟨added, same, -⟩ := h.values
  have written : imports.written = [] := by
    obtain ⟨-, body, -, -, -, -, -, -, -, -, taken, -⟩ := ofText_cases text packageName
    rw [same] at none
    have nothing := (List.append_eq_nil_iff.mp none).1
    rw [taken] at nothing
    rw [same, taken]
    exact List.map_eq_nil_iff.mp nothing
  have empty : imports.formatted = [] := by
    have bare : imports.formatted = ({ packageName := imports.packageName } : Imports).formatted :=
      formatted_congr rfl (by simp [none])
    exact bare.trans rfl
  have unchanged : imports.changed = false := by
    rw [changed, raw, written, empty]
    rfl
  rw [edit?, unchanged] at edit
  cases edit

/-- The directives are read back from the rewritten buffer, in the order of the block. -/
theorem reread (h : Asked text packageName imports) {e : LineEdit} (edit : imports.edit? = some e) :
    (ofText (LineEdit.applyAll [e] text) packageName).values = imports.groups.flatten ∧
      (ofText (LineEdit.applyAll [e] text) packageName).written = imports.groups.flatten ∧
      (ofText (LineEdit.applyAll [e] text) packageName).packageName = packageName := by
  obtain ⟨added, same, entries⟩ := h.values
  have present := h.values_ne_nil edit
  have grouped := imports.isGrouped_groups
  have listed := isEntry_groups entries
  obtain ⟨above, gap, rest, after, lines, leads, blanks, halts⟩ := h.lines_rewritten edit
  rw [lines_formatted entries present] at lines
  have directives : IsBody (spaced imports.groups ++ gap) :=
    List.forall_mem_append.mpr ⟨isBody_spaced listed, fun line member => .inr (blanks line member)⟩
  have found : (spaced imports.groups ++ gap).filter isDirective = imports.groups.flatten := by
    rw [List.filter_append, filter_isDirective_blank blanks, List.append_nil,
      filter_isDirective_spaced listed]
  have some : imports.groups.flatten ≠ [] := by
    obtain ⟨value, more, values⟩ := List.exists_cons_of_ne_nil present
    exact List.ne_nil_of_mem ((grouped.mem_iff value).mpr (by simp [values]))
  have read := ofText_eq packageName lines leads directives (by rwa [found]) halts
  rwa [found, map_trim_entries listed] at read

end Asked

theorem flatMap_ink_spaced (groups : List (List Text)) :
    (spaced groups).flatMap Text.ink = groups.flatten.flatMap Text.ink := by
  fun_induction spaced groups with
  | case1 => rfl
  | case2 g => simp
  | case3 g next rest ih =>
      rw [List.flatMap_append, List.flatMap_cons, ih, Text.ink_nil, List.nil_append,
        ← List.flatMap_append]
      rfl

theorem subset_of_same_ink {lines some : List Text} (once : some.Nodup) (kept : some ⊆ lines)
    (entries : ∀ line ∈ lines, IsEntry line)
    (same : some.flatMap Text.ink = lines.flatMap Text.ink) : lines ⊆ some := by
  intro line member
  by_contra missing
  have apart : (line :: some).Nodup := List.nodup_cons.mpr ⟨missing, once⟩
  obtain ⟨part, perm, inside⟩ := List.subperm_of_subset apart (List.cons_subset.mpr ⟨member, kept⟩)
  have ink : line.ink ≠ [] := by
    intro none
    have blank : line.isBlankText := by simpa [Text.ink, Text.isBlankText] using none
    rw [(entries line member).isBlankText] at blank
    cases blank
  have more := (inside.flatMap Text.ink).length_le
  have size := (perm.flatMap_right Text.ink).length_eq
  have room := List.length_pos_iff.mpr ink
  rw [size, List.flatMap_cons, List.length_append, same] at more
  omega

/-- The block is written without loss and to a fixpoint. Its lines that are not blank are the
    directives, each once and in groups; the old block is part of it; and once it stands in
    the buffer there is nothing to rewrite. -/
theorem rewritten_without_loss {text : Text} {packageName : Option Text} {imports : Imports}
    (asked : Asked text packageName imports) :
    (∃ groups, IsGrouped packageName imports.values groups ∧
      imports.formatted = Text.unlines (spaced groups) ∧
      (imports.formatted.lines.filter fun line => !line.isBlankText) = groups.flatten ∧
        groups.flatten.Nodup) ∧
    (∀ first last, imports.block = some (first, last) → ∀ i, first ≤ i → i ≤ last →
      ∃ line, text.lines[i]? = some line ∧
        (line.isBlankText ∨ line.trim ∈ imports.formatted.lines)) ∧
    ∀ e, imports.edit? = some e →
      (ofText (LineEdit.applyAll [e] text) packageName).formatted = imports.formatted ∧
        (ofText (LineEdit.applyAll [e] text) packageName).changed = false := by
  obtain ⟨added, same, entries⟩ := asked.values
  have grouped := imports.isGrouped_groups
  have shape := formatted_eq entries
  have solid : imports.groups.flatten.filter (fun line => !line.isBlankText) =
      imports.groups.flatten := by
    rw [List.filter_eq_self]
    intro line member
    rw [(isEntry_groups entries line member).isBlankText]
    rfl
  have shown : (imports.formatted.lines.filter fun line => !line.isBlankText) =
      imports.groups.flatten := by
    by_cases none : imports.groups = []
    · rw [shape, none]
      rfl
    · have present : imports.values ≠ [] := by
        obtain ⟨g, more, groups⟩ := List.exists_cons_of_ne_nil none
        obtain ⟨line, others, lines⟩ :=
          List.exists_cons_of_ne_nil (grouped.nonempty g (by simp [groups]))
        exact List.ne_nil_of_mem ((grouped.mem_iff line).mp (by simp [groups, lines]))
      rw [lines_formatted entries present, filter_spaced (by decide), solid]
  refine ⟨⟨imports.groups, asked.packageName_eq ▸ grouped, shape, shown, grouped.nodup⟩, ?_, ?_⟩
  · intro first last block i low high
    obtain ⟨line, here, kept⟩ := asked.keeps_lines block low high
    refine ⟨line, here, kept.imp_right fun value => ?_⟩
    have listed : line.trim ∈ imports.groups.flatten := (grouped.mem_iff _).mpr value
    rw [← shown] at listed
    exact (List.mem_filter.mp listed).1
  · intro e edit
    obtain ⟨values, written, package⟩ := asked.reread edit
    have again : (ofText (LineEdit.applyAll [e] text) packageName).formatted =
        imports.formatted := by
      refine formatted_congr (package.trans asked.packageName_eq.symm) fun line => ?_
      rw [values, grouped.mem_iff]
    refine ⟨again, ?_⟩
    have ink : Text.sameInk (Text.unlines imports.groups.flatten) imports.formatted := by
      rw [shape, Text.sameInk, Text.ink_unlines, Text.ink_unlines, flatMap_ink_spaced,
        beq_self_eq_true]
    rw [changed, again, raw, written, ink]
    rfl

/-- Two imports that stand apart below a comment, and a library that is asked for. -/
theorem rewritten_without_loss_apart :
    let text : Text :=
      "// c\nimport 'b.dart';\n\nimport 'a.dart';\nclass A \x7b\n  final int x;\n\x7d"
    let imports := (ofText text none).require "dart:convert" []
    Asked text none imports ∧
      (∃ groups, IsGrouped none imports.values groups ∧
        imports.formatted = Text.unlines (spaced groups) ∧
        (imports.formatted.lines.filter fun line => !line.isBlankText) = groups.flatten ∧
          groups.flatten.Nodup) ∧
      (∀ first last, imports.block = some (first, last) → ∀ i, first ≤ i → i ≤ last →
        ∃ line, text.lines[i]? = some line ∧
          (line.isBlankText ∨ line.trim ∈ imports.formatted.lines)) ∧
      ∀ e, imports.edit? = some e →
        (ofText (LineEdit.applyAll [e] text) none).formatted = imports.formatted ∧
          (ofText (LineEdit.applyAll [e] text) none).changed = false := by
  intro text imports
  have asked : Asked text none imports := .require .read fun _ => ⟨by decide, by decide, by decide⟩
  exact ⟨asked, rewritten_without_loss asked⟩

end ValueClass.Dart.Imports
