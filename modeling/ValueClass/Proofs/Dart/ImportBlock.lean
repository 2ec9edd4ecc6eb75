import ValueClass.Dart.Imports
import ValueClass.Proofs.Dart.HeaderLine
import ValueClass.Proofs.Dart.Placement

/-! # The import block stands above the classes

Reading directives stops at the first line that can open a class: directives,
comments, the library line and blank lines open none. So the old block and the
place for a new one both lie above every class of the buffer.
-/

namespace ValueClass.Dart

section Lines

variable {line : Text}

theorem isHeader_of_directive (h : isDirective line) : Header.isHeader line = false := by
  simp only [isDirective, Bool.or_eq_true, decide_eq_true_eq] at h
  apply Header.isHeader_eq_false_of_firstWord
  · rcases h with (h | h) | h <;> rw [h] <;> decide
  · rcases h with (h | h) | h <;> rw [h] <;> decide

theorem isHeader_of_library (h : Text.firstWord line.trim = "library") :
    Header.isHeader line = false := by
  apply Header.isHeader_eq_false_of_firstWord
  · rw [h]
    decide
  · rw [h]
    decide

theorem trimStart_of_trim_eq_nil (h : line.trim = []) : line.trimStart = [] := by
  obtain ⟨blanks, blank, split⟩ := Text.trimEnd_append_blank line.trimStart
  rw [show line.trimStart.trimEnd = [] from h, List.nil_append] at split
  cases start : line.trimStart with
  | nil => rfl
  | cons c rest =>
      have first := Text.isBlank_head_trimStart start
      rw [← split, start, Text.isBlankText, List.all_cons, first] at blank
      simp at blank

theorem isHeader_of_blank (h : line.trim = []) : Header.isHeader line = false := by
  apply Header.isHeader_eq_false_of_head
  intro c rest start
  rw [trimStart_of_trim_eq_nil h] at start
  simp at start

theorem isHeader_of_comment (h : Line.isComment line.trim) : Header.isHeader line = false := by
  apply Header.isHeader_eq_false_of_head
  intro c rest start
  have first : c = '/' ∨ c = '*' := by
    -- a comment keeps its first character when its end is trimmed
    have nonempty : line.trim ≠ [] := by
      rintro none
      simp [Line.isComment, Text.startsWith, none] at h
    obtain ⟨blanks, -, split⟩ := Text.trimEnd_append_blank line.trimStart
    cases trimmed : line.trim with
    | nil => exact absurd trimmed nonempty
    | cons d tail =>
        rw [show line.trimStart.trimEnd = d :: tail from trimmed, start] at split
        cases split
        rw [trimmed] at h
        simp only [Line.isComment, Text.startsWith, Bool.or_eq_true] at h
        rcases h with (h | h) | h
        · simp at h
          exact .inl h.1.symm
        · simp at h
          exact .inl h.1.symm
        · simp at h
          exact .inr h.symm
  rcases first with rfl | rfl <;> decide

end Lines

namespace Imports

/-- The block and the place for a new one lie above the line with this index. -/
structure Above (limit : Nat) (imports : Imports) : Prop where
  insertLine : imports.insertLine ≤ limit
  block : ∀ first last, imports.block = some (first, last) → first ≤ last ∧ last < limit

theorem Above.next {limit : Nat} {imports : Imports} (h : imports.Above limit) :
    imports.Above (limit + 1) := by
  refine ⟨Nat.le_succ_of_le h.insertLine, ?_⟩
  intro first last block
  have := h.block first last block
  omega

theorem Above.readDirective {limit : Nat} {imports : Imports} (h : imports.Above limit)
    (line : Text) : (imports.readDirective limit line).Above (limit + 1) := by
  refine ⟨Nat.le_succ_of_le h.insertLine, ?_⟩
  intro first last block
  cases old : imports.block with
  | none =>
      simp only [Imports.readDirective, old, Option.map_none, Option.getD_none, Option.some.injEq,
        Prod.mk.injEq] at block
      omega
  | some range =>
      obtain ⟨start, stop⟩ := range
      have := h.block start stop old
      simp only [Imports.readDirective, old, Option.map_some, Option.getD_some, Option.some.injEq,
        Prod.mk.injEq] at block
      omega

/-- Reading passes lines that open no class, and finds everything above the line
    it stops at. -/
theorem readFrom_above {imports : Imports} {lineNo : Nat} (seenLibrary : Bool) (lines : List Text)
    (h : imports.Above lineNo) :
    ∃ passed rest, lines = passed ++ rest ∧ (∀ line ∈ passed, Header.isHeader line = false) ∧
      (imports.readFrom seenLibrary lineNo lines).Above (lineNo + passed.length) := by
  induction lines generalizing imports lineNo seenLibrary with
  | nil => exact ⟨[], [], rfl, by simp, by simpa [readFrom] using h⟩
  | cons line lines ih =>
      -- one line that opens no class, and then what the rest gives
      have pass : ∀ (next : Imports) (seen : Bool), Header.isHeader line = false →
          next.Above (lineNo + 1) →
          ∃ passed rest, line :: lines = passed ++ rest ∧
            (∀ line ∈ passed, Header.isHeader line = false) ∧
            (next.readFrom seen (lineNo + 1) lines).Above (lineNo + passed.length) := by
        intro next seen body above
        obtain ⟨passed, rest, split, bodies, found⟩ := ih seen above
        refine ⟨line :: passed, rest, by rw [split, List.cons_append], ?_, ?_⟩
        · simpa using ⟨body, bodies⟩
        · rw [List.length_cons]
          rwa [show lineNo + (passed.length + 1) = lineNo + 1 + passed.length by omega]
      rw [readFrom]
      dsimp only
      split
      · rename_i directive
        exact pass _ _ (isHeader_of_directive directive) (h.readDirective line)
      · split
        · rename_i blank
          exact pass _ _ (isHeader_of_blank (by simpa using blank)) h.next
        · split
          · rename_i leading
            simp only [Bool.and_eq_true, Bool.or_eq_true, decide_eq_true_eq] at leading
            refine pass _ _ ?_ ⟨Nat.le_refl _, fun first last block => ?_⟩
            · rcases leading.2 with comment | library
              · exact isHeader_of_comment comment
              · exact isHeader_of_library library.1
            · have := h.block first last block
              omega
          · exact ⟨[], line :: lines, rfl, by simp, by simpa using h⟩

theorem ofText_above (text : Text) (packageName : Option Text) :
    ∃ passed rest, text.lines = passed ++ rest ∧ (∀ line ∈ passed, Header.isHeader line = false) ∧
      (ofText text packageName).Above passed.length := by
  have start : Above 0 { source := text, packageName } := ⟨Nat.le_refl _, by simp⟩
  simpa [ofText] using readFrom_above false text.lines start

theorem ofText_inside (text : Text) (packageName : Option Text) :
    (ofText text packageName).Above text.lines.length := by
  obtain ⟨passed, rest, split, -, found⟩ := ofText_above text packageName
  refine ⟨?_, fun first last block => ?_⟩
  · have := found.insertLine
    rw [split, List.length_append]
    omega
  · have := found.block first last block
    rw [split, List.length_append]
    omega

/-- Every class starts behind the block. -/
theorem ofText_above_class {text : Text} (packageName : Option Text) {c : ClassDecl}
    (h : c ∈ scan text) : (ofText text packageName).Above (c.firstLine - 1) := by
  obtain ⟨passed, rest, split, bodies, found⟩ := ofText_above text packageName
  have stands := standsIn_of_mem_scan h
  obtain ⟨above, below, whole, first⟩ := stands.place
  obtain ⟨line, body, lines, header⟩ := stands.header
  have behind : passed.length ≤ above.length := by
    by_contra short
    have member : line ∈ passed := by
      have here : text.lines[above.length]? = some line := by
        rw [whole, lines]
        simp
      rw [split, List.getElem?_append_left (by omega)] at here
      exact List.mem_of_getElem? here
    simp [bodies line member] at header
  rw [first, Nat.add_sub_cancel]
  refine ⟨?_, fun first last block => ?_⟩
  · have := found.insertLine
    omega
  · have := found.block first last block
    omega

/-! Asking for libraries changes the directives only. -/

@[simp] theorem require_block (imports : Imports) (path : Text) (umbrellas : List Text) :
    (imports.require path umbrellas).block = imports.block := by
  simp only [require]
  split <;> rfl

@[simp] theorem require_insertLine (imports : Imports) (path : Text) (umbrellas : List Text) :
    (imports.require path umbrellas).insertLine = imports.insertLine := by
  simp only [require]
  split <;> rfl

end Imports

end ValueClass.Dart
