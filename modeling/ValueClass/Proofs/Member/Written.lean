import ValueClass.Proofs.Dart.HeaderLine
import ValueClass.Proofs.Member.Search
import ValueClass.Text.Layout

/-! # Written lines

A line that is written weighs what its parts weigh and opens no class, however far
it is indented. Where it stands in a class decides the rest: inside a block nothing
more is asked of it, and at the top of the class it must not look like a
constructor or a field.
-/

namespace ValueClass.Dart

open Line

/-- A line of a known weight that opens no class behind any indentation. -/
structure Written (weight : Int) (line : Text) : Prop extends Snippet weight line where
  noHeader : ∀ blanks : Text, blanks.isBlankText → Header.isHeader (blanks ++ line) = false

namespace Written

variable {weight : Int} {line w rest : Text} {c : Char}

theorem indent (h : Written weight line) {blanks : Text} (blank : blanks.isBlankText)
    (light : blanks.all isLight) : Written weight (blanks ++ line) := by
  refine ⟨?_, ?_⟩
  · have := (snippet_light light).append h.toSnippet
    rwa [Int.zero_add] at this
  · intro more moreBlank
    rw [← List.append_assoc]
    apply h.noHeader
    rw [Text.isBlankText, List.all_append]
    simp only [Text.isBlankText] at blank moreBlank
    simp [blank, moreBlank]

theorem noFeed (h : Written weight line) : '\n' ∉ line := by
  intro member
  exact absurd (List.all_eq_true.mp h.tidy _ member) (by decide)

theorem noMark (h : Written weight line) : '@' ∉ line := by
  intro member
  exact absurd (List.all_eq_true.mp h.tidy _ member) (by decide)

theorem noSlash (h : Written weight line) : '/' ∉ line := by
  intro member
  exact absurd (List.all_eq_true.mp h.tidy _ member) (by decide)

end Written

section Fronts

variable {weight : Int} {w rest : Text} {c : Char}

/-- A line that starts with a word, which opens no class or is no word of its own. -/
theorem written_word (snippet : Snippet weight (w ++ c :: rest)) (word : ∀ d ∈ w, isWordChar d)
    (nonempty : w ≠ []) (stop : isWordChar c = false)
    (plain : w ∉ Header.openers ∨ isBlank c = false) :
    Written weight (w ++ c :: rest) := by
  refine ⟨snippet, ?_⟩
  intro blanks blank
  have start : Text.trimStart (blanks ++ (w ++ c :: rest)) = w ++ c :: rest := by
    rw [Text.trimStart_append_of_blank blank]
    cases w with
    | nil => exact absurd rfl nonempty
    | cons d tail => exact Text.trimStart_cons (isBlank_of_isWordChar (word d (by simp))) _
  refine Header.isHeader_eq_false start word ?_ ?_ ?_
  · rintro d tail same
    cases same
    exact stop
  · rcases plain with other | glued
    · exact .inl other
    · refine .inr ?_
      rintro d tail same
      cases same
      exact glued
  · rintro tail same
    cases w with
    | nil => exact nonempty rfl
    | cons d more =>
        cases same
        exact absurd (word '@' (by simp)) (by decide)

theorem written_mark (snippet : Snippet weight (c :: rest)) (mark : c ≠ '@')
    (stop : isWordChar c = false) (solid : isBlank c = false) : Written weight (c :: rest) := by
  refine ⟨snippet, ?_⟩
  intro blanks blank
  apply Header.isHeader_eq_false_of_head
  intro d tail start
  rw [Text.trimStart_append_of_blank blank, Text.trimStart_cons solid] at start
  cases start
  exact ⟨mark, stop⟩

theorem written_nil : Written 0 [] := by
  refine ⟨snippet_light rfl, ?_⟩
  intro blanks blank
  apply Header.isHeader_eq_false_of_head
  intro d tail start
  rw [Text.trimStart_append_of_blank blank] at start
  simp at start

/-- A line that starts with a word opens no constructor, unless a parenthesis
    follows the word. -/
theorem opensConstructor_eq_false {blanks className : Text} (blank : blanks.isBlankText)
    (name : ∀ d ∈ className, isWordChar d) (word : ∀ d ∈ w, isWordChar d) (nonempty : w ≠ [])
    (stop : isWordChar c = false) (other : c ≠ '(') (plain : w ≠ "const") :
    opensConstructor (blanks ++ (w ++ c :: rest)) className = false := by
  have start : Text.trimStart (blanks ++ (w ++ c :: rest)) = w ++ c :: rest := by
    rw [Text.trimStart_append_of_blank blank]
    cases w with
    | nil => exact absurd rfl nonempty
    | cons d tail => exact Text.trimStart_cons (isBlank_of_isWordChar (word d (by simp))) _
  have first : Text.firstWord (w ++ c :: rest) = w := by
    apply Text.firstWord_eq word
    rintro d tail same
    cases same
    exact stop
  -- what a trimmed line starts with, the line starts with
  have begins : ∀ {front : Text} {d : Char}, (∀ e ∈ front, isWordChar e) → isWordChar d = false →
      front ++ [d] <+: Text.trim (blanks ++ (w ++ c :: rest)) → front = w ∧ d = c := by
    intro front d letters ends inside
    obtain ⟨spaces, -, split⟩ := Text.trimEnd_append_blank (w ++ c :: rest)
    rw [Text.trim, start] at inside
    have inside := inside.trans ⟨spaces, split.symm⟩
    obtain ⟨tail, same⟩ := inside
    rw [List.append_assoc, List.singleton_append] at same
    have front_ : Text.firstWord (front ++ d :: tail) = front := by
      apply Text.firstWord_eq letters
      rintro e more same
      cases same
      exact ends
    rw [same, first] at front_
    subst front_
    have := List.append_cancel_left same
    exact ⟨rfl, (List.cons.inj this).1⟩
  have unmarked : Text.dropStart? "const " (Text.trim (blanks ++ (w ++ c :: rest))) = none := by
    rw [Text.dropStart?, if_neg]
    intro starts
    have keyword : "const".toList ++ [' '] <+: Text.trim (blanks ++ (w ++ c :: rest)) :=
      List.isPrefixOf_iff_prefix.mp starts
    exact plain (begins (by decide) (by decide) keyword).1.symm
  rw [opensConstructor, unmarked]
  simp only [Option.map_none, Option.getD_none]
  rw [Bool.eq_false_iff]
  intro starts
  have := begins name (by decide) (List.isPrefixOf_iff_prefix.mp starts)
  exact other this.2.symm

end Fronts

/-! ## Indentation -/

/-- A line of a block, one level in; blank lines stay empty. -/
def indented (indent line : Text) : Text :=
  if line.isBlankText then line else indent ++ line

theorem indented_of_solid {line : Text} (solid : line.isBlankText = false) (indent : Text) :
    indented indent line = indent ++ line := by
  rw [indented, solid]
  rfl

theorem indented_of_mem {line : Text} {c : Char} (member : c ∈ line) (solid : isBlank c = false)
    (indent : Text) :
    indented indent line = indent ++ line := by
  apply indented_of_solid
  rw [Text.isBlankText, List.all_eq_false]
  exact ⟨c, member, by simp [solid]⟩

section Indent

variable {indent : Text} (blank : indent.isBlankText)

include blank

theorem Written.indented {weight : Int} {line : Text} (h : Written weight line)
    (light : indent.all isLight) : Written weight (indented indent line) := by
  rw [Dart.indented]
  split
  · exact h
  · exact h.indent blank light

end Indent

theorem lines_indentBlock {indent : Text} (noFeed : '\n' ∉ indent) (t : Text) :
    (Text.indentBlock indent t).lines = t.lines.map (indented indent) := by
  rw [Text.indentBlock, Text.lines_unlines]
  · rfl
  · simp [Text.lines_ne_nil]
  · intro line member
    obtain ⟨old, inside, rfl⟩ := List.mem_map.mp member
    have whole := Text.notMem_of_mem_lines inside
    split
    · exact whole
    · simp [noFeed, whole]

namespace ClassDecl

/-! ## Lines of a member -/

theorem deep_of_written {lines : List Text} (each : ∀ line ∈ lines, Written 0 line) {depth : Int}
    (inside : 2 ≤ depth) : Deep depth lines depth := by
  induction lines with
  | nil => rfl
  | cons line rest ih =>
      have here := each line (by simp)
      refine ⟨⟨here.hides, ?_, ?_⟩, ?_⟩
      · exact here.noHeader [] rfl
      · rw [here.raw]
        omega
      · rw [here.raw, Int.add_zero]
        exact ih fun l member => each l (List.mem_cons_of_mem _ member)

theorem deep_singleton {weight depth behind : Int} {line : Text} (h : Written weight line)
    (level : depth + weight = behind) (inside : 2 ≤ behind) : Deep depth [line] behind := by
  refine ⟨⟨h.hides, h.noHeader [] rfl, ?_⟩, ?_⟩
  · rw [h.raw]
    omega
  · rw [h.raw]
    exact level

theorem isMember_arrow {className a b : Text} (h : Written 0 (a ++ "=>".toList ++ b))
    (unquoted : ∀ c ∈ a, isQuote c = false)
    (noConstructor : opensConstructor (a ++ "=>".toList ++ b) className = false)
    (ends : Text.endsWith (Text.trimEnd (a ++ "=>".toList ++ b)) ";") :
    IsMember className [a ++ "=>".toList ++ b] := by
  refine .arrow ⟨h.hides, h.noHeader [] rfl, ?_, fun _ => noConstructor, fun _ => not_showsField ?_⟩
    h.raw ?_ ends
  · rw [h.raw]
    decide
  · exact isField_eq_false_of_mark (by decide) unquoted h.noSlash className
  · rw [Text.has_iff_infix]
    exact ⟨a, b, rfl⟩

/-- A block at the top of a class is a member. -/
theorem isMember_block {className first : Text} {inner : List Text} (h : Written 1 first)
    (noConstructor : opensConstructor first className = false)
    (noArrow : '>' ∉ first ∨ '=' ∉ first) (deep : Deep 2 inner 2) {blanks : Text}
    (blank : blanks.isBlankText) (light : blanks.all isLight) :
    IsMember className (first :: (inner ++ [blanks ++ ['\x7d']])) := by
  have brace : Written (-1) ['\x7d'] :=
    written_mark (snippet_of_unquoted (by decide) (by decide)) (by decide) (by decide) (by decide)
  have closing := brace.indent blank light
  refine .block ⟨h.hides, h.noHeader [] rfl, ?_, fun _ => noConstructor, ?_⟩ h.raw ?_ deep
    ⟨closing.hides, closing.noHeader [] rfl, ?_, ?_, fun _ => not_showsField ?_⟩ closing.raw
  · rw [h.raw]
    decide
  · rw [h.raw]
    omega
  · rw [Bool.eq_false_iff, ne_eq, Text.has_iff_infix]
    intro inside
    rcases noArrow with none | none
    · exact none (inside.subset (by decide))
    · exact none (inside.subset (by decide))
  · rw [closing.raw]
    decide
  · omega
  · have slash : '/' ∉ blanks ++ "\x7d".toList ++ [] := by
      rw [List.append_nil]
      exact closing.noSlash
    have noField := isField_eq_false_of_mark (by decide) (unquoted_of_light light) slash className
    rwa [List.append_nil] at noField

end ClassDecl

end ValueClass.Dart
