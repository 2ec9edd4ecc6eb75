import ValueClass.Proofs.Dart.HeaderLine
import ValueClass.Proofs.Fresh.Names

/-! # Reading the line of a field

The line that a field is written on declares this field and nothing else: it
opens no class, no bracket and no constructor, and its type and name come back.
-/

namespace ValueClass.Fresh

open Dart

def FieldText.field (f : FieldText) (lineNo : Nat) : Field where
  rawType := f.type.text
  key := f.name
  name := f.name
  line := lineNo

/-- The words that no name on the line of a field is, lest the line be read as something else. -/
def misread : List Text :=
  "class".toList :: Line.excludedWords

/-- A line that declares a field, behind any blanks. -/
structure FieldRow where
  indent : Text
  type : TypeText
  name : Text
  blank : indent.isBlankText
  noFeed : '\n' ∉ indent
  isIdentifier : IsIdentifier name
  plain : name ∉ misread

namespace FieldRow

variable (f : FieldRow)

def field (lineNo : Nat) : Field where
  rawType := f.type.text
  key := f.name
  name := f.name
  line := lineNo

def declaration : Text :=
  "final " ++ f.type.text ++ " " ++ f.name ++ ";"

def line : Text :=
  f.indent ++ f.declaration

theorem declaration_eq : f.declaration =
    "final ".toList ++ (f.type.text ++ (' ' :: (f.name ++ [';']))) := by
  unfold declaration
  simp only [List.append_assoc]
  rfl

theorem declarationChars : ∀ c ∈ f.declaration, isTypeChar c ∨ c = ';' := by
  have word : ∀ c ∈ "final ".toList, isTypeChar c := by decide
  intro c member
  rw [declaration_eq, List.mem_append, List.mem_append, List.mem_cons, List.mem_append,
    List.mem_singleton] at member
  rcases member with member | member | rfl | member | rfl
  · exact .inl (word c member)
  · exact .inl (f.type.typeChars_text c member)
  · exact .inl (by decide)
  · exact .inl (by simp [isTypeChar, f.isIdentifier.plain c member])
  · exact .inr rfl

theorem notMem_declaration {c : Char} (other : isTypeChar c = false) (stop : c ≠ ';') :
    c ∉ f.declaration := by
  intro member
  rcases f.declarationChars c member with typeChar | rfl
  · simp [typeChar] at other
  · exact stop rfl

theorem lineChars : ∀ c ∈ f.line, isTypeChar c ∨ c = ';' := by
  intro c member
  rcases List.mem_append.mp member with front | back
  · have solid : c ≠ '\n' := fun feed => f.noFeed (feed ▸ front)
    exact .inl (by simp [isTypeChar, List.all_eq_true.mp f.blank c front, solid])
  · exact f.declarationChars c back

theorem notMem_line {c : Char} (other : isTypeChar c = false) (stop : c ≠ ';') : c ∉ f.line := by
  intro member
  rcases f.lineChars c member with typeChar | rfl
  · simp [typeChar] at other
  · exact stop rfl

theorem light_line : f.line.all Line.isLight := by
  rw [List.all_eq_true]
  intro c member
  rcases f.lineChars c member with typeChar | rfl
  · exact isLight_of_isTypeChar typeChar
  · decide

theorem unquoted_line : ∀ c ∈ f.line, Line.isQuote c = false :=
  Line.unquoted_of_light f.light_line

theorem parens_line : Line.parens f.line = 0 := by
  apply Line.parens_eq_zero
  intro c member
  constructor
  · rintro rfl
    exact f.notMem_line (by decide) (by decide) member
  · rintro rfl
    exact f.notMem_line (by decide) (by decide) member

theorem trim_line : f.line.trim = f.declaration := by
  have first : ∀ c rest, f.declaration = c :: rest → isBlank c = false := by
    intro c rest same
    have : 'f' :: ("inal ".toList ++ (f.type.text ++ (' ' :: (f.name ++ [';'])))) = c :: rest := by
      rw [← same, declaration_eq]
      rfl
    cases this
    decide
  have last : ∀ c rest, f.declaration = rest ++ [c] → isBlank c = false := by
    intro c rest same
    have : ("final ".toList ++ (f.type.text ++ (' ' :: f.name))) ++ [';'] = rest ++ [c] := by
      rw [← same, declaration_eq]
      simp only [List.append_assoc, List.cons_append]
    cases (List.append_inj' this rfl).2
    decide
  exact Text.trim_append_of_blank f.blank first last

theorem words_declaration :
    f.declaration.words = "final".toList :: (f.type.text.words ++ [f.name]) := by
  have parts : f.declaration =
      "final".toList ++ ' ' :: (f.type.text ++ ' ' :: (f.name ++ ';' :: [])) := by
    rw [declaration_eq]
    rfl
  rw [parts, Text.words_append (by decide), Text.words_append (by decide),
    Text.words_append (by decide), f.isIdentifier.words, Text.words_nil, List.append_nil]
  rw [Text.words_of_forall (by decide) (by decide)]
  rfl

theorem words_line : f.line.words = f.declaration.words := by
  have start : f.line.trimStart = f.declaration := by
    rw [line, Text.trimStart_append_of_blank f.blank, declaration_eq]
    exact Text.trimStart_cons (by decide) _
  rw [← start]
  exact (Header.words_trimStart f.line).symm

theorem notMem_words {word : Text} (member : word ∈ misread) : word ∉ f.declaration.words := by
  have listed : ∀ word ∈ misread, word ∈ reserved ∧ word ≠ "final" := by decide
  obtain ⟨reserved, other⟩ := listed word member
  rw [words_declaration]
  simp only [List.mem_cons, List.mem_append, List.not_mem_nil, or_false, not_or]
  refine ⟨other, ?_, ?_⟩
  · exact fun inside => f.type.unreserved word inside reserved
  · rintro rfl
    exact f.plain member

theorem isHeader_line : Header.isHeader f.line = false := by
  rw [Bool.eq_false_iff]
  intro header
  have := Header.class_mem_words header
  rw [words_line] at this
  exact f.notMem_words (by decide) this

theorem code_line : Line.code f.line = f.declaration := by
  rw [Line.code_eq (f.notMem_line (by decide) (by decide)),
    Line.blankStrings_eq_self f.unquoted_line, trim_line]

theorem startsWith_declaration {start : Text} (other : ∀ c rest, start = c :: rest → c ≠ 'f')
    (some : start ≠ []) : f.declaration.startsWith start = false := by
  cases start with
  | nil => exact absurd rfl some
  | cons c rest =>
      have front : f.declaration =
          'f' :: ("inal ".toList ++ (f.type.text ++ (' ' :: (f.name ++ [';'])))) := by
        rw [declaration_eq]
        rfl
      have := other c rest rfl
      rw [Text.startsWith, front, List.isPrefixOf_cons_cons]
      simp [this]

theorem isField_line {className : Text} (nonempty : className ≠ [])
    (other : className.head? ≠ some 'f') :
    Line.isField f.line className := by
  have unmarked : (Line.excludedMarks.any fun mark => f.declaration.has mark) = false := by
    rw [List.any_eq_false]
    intro mark member found
    have odd : ∀ mark ∈ Line.excludedMarks, ∃ c ∈ mark, isTypeChar c = false ∧ c ≠ ';' := by decide
    obtain ⟨c, inside, other, stop⟩ := odd mark member
    exact f.notMem_declaration other stop ((Text.has_iff_infix.mp found).subset inside)
  have noWord : (f.declaration.words.any fun word => Line.excludedWords.contains word) = false := by
    rw [List.any_eq_false]
    intro word inside excluded
    exact f.notMem_words (List.mem_cons_of_mem _ (by simpa using excluded)) inside
  have noValue : List.contains f.declaration '=' = false := by
    rw [Bool.eq_false_iff, ne_eq, List.contains_iff_mem]
    exact f.notMem_declaration (by decide) (by decide)
  have noCall : f.declaration.endsWith ");" = false := by
    rw [Bool.eq_false_iff]
    intro ends
    have := (List.isSuffixOf_iff_suffix.mp ends).subset (show ')' ∈ ");".toList by decide)
    exact f.notMem_declaration (by decide) (by decide) this
  have noName : f.declaration.startsWith className = false := by
    refine f.startsWith_declaration ?_ nonempty
    rintro c rest rfl rfl
    exact other rfl
  have noComment : Line.isComment f.declaration = false := by
    simp only [Line.isComment, Bool.or_eq_false_iff]
    refine ⟨⟨?_, ?_⟩, ?_⟩ <;> exact f.startsWith_declaration (by simp) (by simp)
  have nonempty : List.isEmpty f.declaration = false := by
    rw [declaration_eq]
    rfl
  simp only [Line.isField, code_line, unmarked, noWord, noValue, noCall, noName, noComment,
    nonempty, Bool.and_false, Bool.not_false, Bool.and_self]

theorem tokens_declaration :
    Text.tokens f.declaration = ["final".toList, f.type.text, f.name ++ [';']] := by
  have parts : f.declaration = "final".toList ++ ' ' ::
      (f.type.text ++ ' ' :: (f.name ++ [';'])) := by
    rw [declaration_eq]
    rfl
  have name : Text.Passes angleStep isBlank 0 (f.name ++ [';']) 0 :=
    (f.isIdentifier.passes 0).append (Text.passes_of_forall (by decide) 0)
  rw [parts, Text.tokens_cons (Text.passes_of_forall (by decide) 0) (by decide) (by decide),
    Text.tokens_cons f.type.passes_text f.type.text_ne_nil (by decide),
    Text.tokens_last name (by simp)]

theorem markers_declaration :
    ((Text.tokens f.declaration).filter fun token => !Line.fieldMarkers.contains token) =
      [f.type.text, f.name ++ [';']] := by
  have typeToken : Line.fieldMarkers.contains f.type.text = false := by
    rw [Bool.eq_false_iff, ne_eq, List.contains_iff_mem]
    intro member
    have listed : ∀ word ∈ Line.fieldMarkers, word ∈ reserved ∧ word.words = [word] := by decide
    obtain ⟨reserved, word⟩ := listed _ member
    exact f.type.unreserved f.type.text (by rw [← TypeText.text, word]; simp) reserved
  have nameToken : Line.fieldMarkers.contains (f.name ++ [';']) = false := by
    rw [Bool.eq_false_iff, ne_eq, List.contains_iff_mem]
    intro member
    have listed : ∀ word ∈ Line.fieldMarkers, ';' ∉ word := by decide
    exact listed _ member (by simp)
  have marker : Line.fieldMarkers.contains "final".toList = true := by decide
  rw [tokens_declaration, List.filter_cons_of_neg, List.filter_cons_of_pos, List.filter_cons_of_pos]
  · rfl
  · rw [nameToken]
    rfl
  · rw [typeToken]
    rfl
  · rw [marker]
    decide

theorem splitDeclaration_tokens :
    Line.splitDeclaration [f.type.text, f.name ++ [';']] = some ([f.type.text], f.name) := by
  have typeCut : Text.cut? "=" f.type.text = none :=
    Text.cut?_eq_none (f.type.notMem_text (by decide))
  have nameCut : Text.cut? "=" (f.name ++ [';']) = none := by
    have absent : '=' ∉ f.name ++ [';'] := by simp [f.isIdentifier.notMem (c := '=') (by decide)]
    exact Text.cut?_eq_none absent
  have typeEnd : f.type.text.endsWith ";" = false := by
    rw [Bool.eq_false_iff]
    intro ends
    have := (List.isSuffixOf_iff_suffix.mp ends).subset (show ';' ∈ ";".toList by decide)
    exact f.type.notMem_text (by decide) this
  have nameEnd : Text.endsWith (f.name ++ [';']) ";" = true :=
    List.isSuffixOf_iff_suffix.mpr (List.suffix_append _ _)
  have next : Text.startsWith (([f.name ++ [';']] : List Text).head?.getD []) "=" = false := by
    obtain ⟨c, rest, same, -⟩ := f.isIdentifier.first
    have plain := f.isIdentifier.plain c (by simp [same])
    have : c ≠ '=' := Text.ne_of_isPlain plain (by decide)
    rw [same]
    show List.isPrefixOf ['='] (c :: (rest ++ [';'])) = false
    rw [List.isPrefixOf_cons_cons]
    simp [Ne.symm this]
  rw [Line.splitDeclaration, typeCut]
  simp only [typeEnd, next, Bool.false_eq_true, ↓reduceIte]
  rw [Line.splitDeclaration, nameCut]
  simp only [nameEnd, ↓reduceIte, List.dropLast_concat, Option.map_some]

/-- The line declares its field. -/
theorem field?_line (lineNo : Nat) {previous : Text} (plain : Line.announcesEnum previous = false) :
    Line.field? f.line lineNo previous = some (f.field lineNo) := by
  have uncommented : Line.withoutComment f.line = f.line := by
    rw [Line.withoutComment]
    split
    · rfl
    · exact Line.dropComment_eq_self (f.notMem_line (by decide) (by decide))
  obtain ⟨c, rest, name, -⟩ := f.isIdentifier.first
  simp only [Line.field?, uncommented, trim_line, markers_declaration, splitDeclaration_tokens]
  simp only [tokens_declaration, plain, field, Text.join, name]
  have noConst : ["final".toList, f.type.text, c :: rest ++ [';']].contains
      "const".toList = false := by
    have typeToken : f.type.text ≠ "const" := by
      intro same
      have : "const".toList ∈ f.type.text.words := by rw [same]; decide
      exact f.type.unreserved _ this (by decide)
    have nameToken : c :: rest ++ [';'] ≠ "const" := by
      intro same
      have : ';' ∈ "const".toList := same ▸ (by simp)
      exact absurd this (by decide)
    simp only [List.contains_eq_any_beq, List.any_cons, List.any_nil, Bool.or_false,
      Bool.or_eq_false_iff, beq_eq_false_iff_ne]
    exact ⟨by decide, Ne.symm typeToken, Ne.symm nameToken⟩
  rw [noConst]
  simp

end FieldRow

/-! ## Fields of fresh classes -/

namespace FieldText

variable (f : FieldText)

/-- The line of a field, two blanks in front of it. -/
def row : FieldRow where
  indent := [' ', ' ']
  type := f.type
  name := f.name
  blank := by decide
  noFeed := by decide
  isIdentifier := f.isIdentifier
  plain := by
    have listed : ∀ word ∈ misread, word ∈ reserved := by decide
    exact fun member => f.unreserved (listed _ member)

def declaration : Text :=
  "final " ++ f.type.text ++ " " ++ f.name ++ ";"

theorem declaration_eq :
    f.declaration = "final ".toList ++ (f.type.text ++ (' ' :: (f.name ++ [';']))) :=
  f.row.declaration_eq

theorem line_eq : f.line = ' ' :: ' ' :: f.declaration := by
  unfold line declaration
  simp only [List.append_assoc]
  rfl

theorem line_row : f.row.line = f.line :=
  f.line_eq.symm

theorem light_line : f.line.all Line.isLight :=
  f.line_row ▸ f.row.light_line

theorem notMem_line {c : Char} (other : isTypeChar c = false) (stop : c ≠ ';') : c ∉ f.line :=
  f.line_row ▸ f.row.notMem_line other stop

end FieldText

end ValueClass.Fresh
