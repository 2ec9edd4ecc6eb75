import ValueClass.Proofs.Dart.Expression
import ValueClass.Proofs.Fresh.Sheet

/-! # Lines that start with a field

The parameters of a copy start with the type of a field, and arguments start with
its name. Such a line is taken for no member but a hash code, and for that just
when the type or the name starts like one.
-/

namespace ValueClass.Fresh

open Dart Dart.Line

theorem prefix_of_plain {w v rest : Text} {d : Char} (letters : ∀ e ∈ w, Text.isPlain e)
    (stop : Text.isPlain d = false) : w <+: v ++ d :: rest ↔ w <+: v := by
  constructor
  · intro starts
    rcases List.prefix_or_prefix_of_prefix starts (List.prefix_append v (d :: rest))
      with inside | longer
    · exact inside
    · obtain ⟨tail, rfl⟩ := longer
      rw [List.prefix_append_right_inj] at starts
      cases tail with
      | nil => exact ⟨[], by simp⟩
      | cons e more =>
          rw [List.cons_prefix_cons] at starts
          have := letters e (by simp)
          rw [starts.1, stop] at this
          simp at this
  · exact fun inside => inside.trans (List.prefix_append _ _)

theorem plain_hashWord : ∀ e ∈ hashWord, Text.isPlain e := by
  decide

theorem like_hashCode_iff {name line : Text} :
    Like name .hashCode line ↔ hashWord <+: line.ink := by
  rw [Like]
  exact Iff.rfl

section Look

variable {line v rest : Text} {d : Char} {name : Text}

theorem like_hashCode_word (ink : line.ink = v ++ d :: rest) (stop : Text.isPlain d = false) :
    Like name .hashCode line ↔ hashWord <+: v := by
  rw [like_hashCode_iff, ink, prefix_of_plain plain_hashWord stop]

end Look

theorem kind_of_angle {kind : MemberKind} (h : (leadRest kind).head? = some '<') :
    kind = .toMap ∨ kind = .props := by
  cases kind <;> first | exact .inl rfl | exact .inr rfl | exact absurd h (by decide)

/-! ## Types of parameters -/

namespace TypeText

variable (t : TypeText)

/-- The arguments of a type, in their brackets. -/
def brackets : Text :=
  (t.arguments.map fun inner => '<' :: (inner ++ ['>'])).getD []

theorem text_eq_brackets :
    t.text = t.name ++ (t.brackets ++ if t.nullable then ['?'] else []) := rfl

/-- A type ends in a question mark just when it admits null. -/
theorem endsWith_text : t.text.endsWith "?" = t.nullable := by
  rw [text_eq_brackets]
  cases nullable : t.nullable with
  | true =>
      rw [← List.append_assoc]
      exact List.isSuffixOf_iff_suffix.mpr (List.suffix_append _ _)
  | false =>
      rw [Bool.eq_false_iff]
      intro ends
      have ends : ['?'] <:+ t.name ++ t.brackets := by
        simpa using List.isSuffixOf_iff_suffix.mp ends
      obtain ⟨front, same⟩ := ends
      have last : (t.name ++ t.brackets).getLast? = some '?' := by
        rw [← same]
        exact List.getLast?_concat
      cases arguments : t.arguments with
      | none =>
          have none : t.brackets = [] := by simp [brackets, arguments]
          rw [none, List.append_nil] at last
          have := t.isIdentifier.plain '?' (List.mem_of_getLast? last)
          exact absurd this (by decide)
      | some inner =>
          have some : t.brackets = ('<' :: inner) ++ ['>'] := by simp [brackets, arguments]
          rw [some, ← List.append_assoc, List.getLast?_concat] at last
          simp at last

theorem isNullable_parse (raw : Text) : (TypeExpr.parse raw).isNullable = raw.endsWith "?" := by
  rw [TypeExpr.parse]
  split
  · rfl
  · split
    · rfl
    · split
      · rfl
      · split
        · rfl
        · split
          · rfl
          · split <;> rfl

theorem text_parse (raw : Text) : (TypeExpr.parse raw).text = TypeExpr.bare raw := by
  rw [TypeExpr.parse]
  split
  · rename_i none
    exact none.symm
  · split
    · rfl
    · split
      · rfl
      · split
        · rfl
        · split
          · rfl
          · split <;> rfl

/-- A parameter that may be left out has the type with a question mark, unless the type
    says nothing. -/
theorem optionalType_eq (f : FieldText) (lineNo : Nat) :
    Method.optionalType (f.field lineNo) =
      if f.type.text = "dynamic" then "dynamic".toList
        else f.type.name ++ (f.type.brackets ++ ['?']) := by
  have nullable : (f.field lineNo).isNullable = f.type.nullable := by
    rw [Field.isNullable, Field.type, isNullable_parse]
    exact f.type.endsWith_text
  have bare : (f.field lineNo).type.text = TypeExpr.bare f.type.text := text_parse _
  rw [Method.optionalType, nullable, bare, TypeExpr.bare, f.type.endsWith_text]
  cases mark : f.type.nullable with
  | true =>
      have text : f.type.text = f.type.name ++ (f.type.brackets ++ ['?']) := by
        rw [text_eq_brackets, mark]
        rfl
      have other : f.type.text ≠ "dynamic" := by
        intro same
        have : '?' ∈ "dynamic".toList := by
          rw [← same, text]
          simp
        exact absurd this (by decide)
      simp only [Bool.true_or, ↓reduceIte, other]
      exact text
  | false =>
      have text : f.type.text = f.type.name ++ f.type.brackets := by
        rw [text_eq_brackets, mark]
        simp
      simp only [Bool.false_or, Bool.false_eq_true, ↓reduceIte, decide_eq_true_eq]
      split
      · rename_i same
        exact same
      · show f.type.text ++ "?".toList = _
        rw [text, List.append_assoc]
        rfl

theorem prefix_text_iff : hashWord <+: t.text ↔ hashWord <+: t.name := by
  rw [text_eq_brackets]
  cases behind : t.brackets ++ (if t.nullable then ['?'] else [] : Text) with
  | nil => rw [List.append_nil]
  | cons d rest =>
      apply prefix_of_plain plain_hashWord
      cases arguments : t.arguments with
      | none =>
          have none : t.brackets = [] := by simp [brackets, arguments]
          rw [none, List.nil_append] at behind
          split at behind
          · cases behind
            decide
          · simp at behind
      | some inner =>
          have some : t.brackets = '<' :: (inner ++ ['>']) := by simp [brackets, arguments]
          rw [some, List.cons_append] at behind
          cases behind
          decide

end TypeText

/-! ## Parameters -/

namespace FieldText

variable (f : FieldText)

def paramLine : Text :=
  Method.optionalType (f.field 1) ++ " " ++ f.name ++ ","

theorem paramLine_eq (known : f.type.text ≠ "dynamic") :
    ∃ d rest, f.paramLine = f.type.name ++ d :: rest ∧ (d = '?' ∨ d = '<' ∧
      ∃ inner more, rest = inner ++ '>' :: '?' :: more ∧ anglesClose 0 inner) := by
  have line : f.paramLine =
      f.type.name ++ (f.type.brackets ++ ('?' :: (" " ++ f.name ++ ","))) := by
    unfold paramLine
    rw [TypeText.optionalType_eq, if_neg known]
    simp only [List.append_assoc, List.cons_append, List.nil_append]
  cases arguments : f.type.arguments with
  | none =>
      have none : f.type.brackets = [] := by simp [TypeText.brackets, arguments]
      exact ⟨'?', _, by rw [line, none, List.nil_append], .inl rfl⟩
  | some inner =>
      have some : f.type.brackets = '<' :: (inner ++ ['>']) := by
        simp [TypeText.brackets, arguments]
      refine ⟨'<', inner ++ '>' :: '?' :: (" " ++ f.name ++ ","), ?_, .inr ⟨rfl, inner, _, rfl, ?_⟩⟩
      · rw [line, some]
        simp
      · exact f.type.closed inner arguments

theorem paramLine_dynamic (unknown : f.type.text = "dynamic") :
    f.paramLine = "dynamic".toList ++ ' ' :: (f.name ++ [',']) := by
  unfold paramLine
  rw [TypeText.optionalType_eq, if_pos unknown]
  simp only [List.append_assoc]
  rfl

theorem light_paramLine : f.paramLine.all isLight := by
  have type : (Method.optionalType (f.field 1)).all isLight := by
    rw [Method.optionalType]
    split
    · exact f.type.light_text
    · show List.all (f.type.text ++ ['?']) isLight
      rw [List.all_append, f.type.light_text]
      decide
  unfold paramLine
  rw [List.all_append, List.all_append, List.all_append, type, f.isIdentifier.light]
  decide

theorem written_paramLine : Written 0 f.paramLine := by
  by_cases unknown : f.type.text = "dynamic"
  · have line := f.paramLine_dynamic unknown
    have light := snippet_light f.light_paramLine
    rw [line] at light ⊢
    exact written_word light (by decide) (by decide) (by decide) (.inl (by decide))
  · obtain ⟨d, rest, line, mark⟩ := f.paramLine_eq unknown
    have light := snippet_light f.light_paramLine
    have : d ∈ ['?', '<'] := by
      rcases mark with rfl | ⟨rfl, -⟩ <;> decide
    have marks : ∀ d ∈ ['?', '<'], isWordChar d = false ∧ isBlank d = false := by decide
    rw [line] at light ⊢
    exact written_word light f.type.isIdentifier.wordChars f.type.isIdentifier.ne_nil
      (marks d this).1
      (.inr (marks d this).2)

theorem paramLine_goesOn : GoesOn f.paramLine :=
  goesOn_concat (by decide) (by decide)

/-- A parameter is taken for nothing but a hash code. -/
theorem unlike_paramLine {c : ClassText} {kind : MemberKind} (method : kind ≠ .constructor)
    (apart : kind = .hashCode → ¬ hashWord <+: f.type.text) : ¬ Like c.name kind f.paramLine := by
  by_cases unknown : f.type.text = "dynamic"
  · rw [f.paramLine_dynamic unknown]
    exact unlike_of_head (c := 'd') c.upper method (by decide) (by decide) (by decide)
  · obtain ⟨d, rest, line, mark⟩ := f.paramLine_eq unknown
    have listed : d ∈ ['?', '<'] := by
      rcases mark with rfl | ⟨rfl, -⟩ <;> decide
    have stop : ∀ d ∈ ['?', '<'], Text.isPlain d = false ∧ isBlank d = false := by decide
    have ink : f.paramLine.ink = f.type.name ++ d :: Text.ink rest := by
      rw [line, Text.ink_append, f.type.isIdentifier.ink, Text.ink_cons (stop d listed).2]
    by_cases hash : kind = .hashCode
    · subst hash
      rw [like_hashCode_word ink (stop d listed).1, ← f.type.prefix_text_iff]
      exact apart rfl
    · rcases mark with rfl | ⟨rfl, inner, more, rfl, closed⟩
      · exact unlike_of_mark c.plainName method hash f.type.isIdentifier.plain (by decide)
          (by decide) ink
      · rw [like_iff c.plainName method hash f.type.isIdentifier.plain (by decide) ink]
        rintro ⟨-, starts⟩
        -- the brackets of the type close where those of the member do, and a question
        -- mark follows
        have closes : ∀ {a b : Text}, anglesClose 0 a → leadRest kind = '<' :: (a ++ '>' :: b) →
            ∃ tail, Text.ink ('?' :: more) = b ++ tail := by
          intro a b balanced same
          rw [same, List.cons_prefix_cons] at starts
          obtain ⟨-, tail, whole⟩ := starts
          rw [Text.ink_append, Text.ink_cons (by decide), List.append_assoc,
            List.cons_append] at whole
          have := eq_of_anglesClose balanced (by rw [anglesClose_ink]; exact closed) whole
          exact ⟨tail, this.2.symm⟩
        rw [Text.ink_cons (show isBlank '?' = false by decide)] at closes
        have angle : (leadRest kind).head? = some '<' := by
          obtain ⟨mark, tail, same, -⟩ := leadRest_eq method hash
          rw [same, List.cons_prefix_cons] at starts
          rw [same, starts.1]
          rfl
        rcases kind_of_angle angle with rfl | rfl
        · obtain ⟨tail, same⟩ := closes (a := "String,dynamic") (b := "toMap()") (by decide) rfl
          have : '?' = 't' := (List.cons.inj same).1
          exact absurd this (by decide)
        · obtain ⟨tail, same⟩ := closes (a := "Object?") (b := "getprops") (by decide) rfl
          have : '?' = 'g' := (List.cons.inj same).1
          exact absurd this (by decide)

/-! ## Lines that start with a name -/

/-- A line that starts with the name of a field and a mark. -/
def nameLine (d : Char) (rest : Text) : Text :=
  f.name ++ d :: rest

variable {d : Char} {rest : Text}

theorem ink_nameLine (solid : isBlank d = false) :
    (f.nameLine d rest).ink = f.name ++ d :: Text.ink rest := by
  rw [nameLine, Text.ink_append, f.isIdentifier.ink, Text.ink_cons solid]

theorem written_nameLine {weight : Int} (snippet : Snippet weight (d :: rest))
    (stop : isWordChar d = false) (solid : isBlank d = false) :
    Written weight (f.nameLine d rest) := by
  have whole := (snippet_light f.isIdentifier.light).append snippet
  rw [Int.zero_add] at whole
  exact written_word whole f.isIdentifier.wordChars f.isIdentifier.ne_nil stop (.inr solid)

theorem unlike_nameLine {c : ClassText} {kind : MemberKind} (method : kind ≠ .constructor)
    (stop : Text.isPlain d = false) (solid : isBlank d = false) (foreign : d ∉ leadMarks)
    (apart : kind = .hashCode → ¬ hashWord <+: f.name) :
    ¬ Like c.name kind (f.nameLine d rest) := by
  have ink : (f.nameLine d rest).ink = f.name ++ d :: Text.ink rest := f.ink_nameLine solid
  by_cases hash : kind = .hashCode
  · subst hash
    rw [like_hashCode_word ink stop]
    exact apart rfl
  · exact unlike_of_mark c.plainName method hash f.isIdentifier.plain stop foreign ink

end FieldText

end ValueClass.Fresh
