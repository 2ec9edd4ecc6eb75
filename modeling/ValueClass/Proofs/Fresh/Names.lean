import ValueClass.Proofs.Dart.Weight
import ValueClass.Proofs.Fresh.Basic
import ValueClass.Proofs.Text.Ink

/-! # The characters of names and types

Names and types are made of few characters, and nothing in them is taken for a
bracket of code, a literal, a comment or the end of a line. A type is one token,
since blanks stand only between its angle brackets.
-/

namespace ValueClass

namespace Text

theorem toNat_of_isPlain {c : Char} (h : isPlain c) : c.toNat < 0x80 := by
  have value : c.toNat = c.val.toNat := rfl
  have listed : (decide (c.val ≥ 'A'.val ∧ c.val ≤ 'Z'.val) ||
    (decide (c.val ≥ 'a'.val) && decide (c.val ≤ 'z'.val)) ||
      (decide (c.val ≥ '0'.val) && decide (c.val ≤ '9'.val)) || c == '_') = true := h
  simp only [Bool.or_eq_true, Bool.and_eq_true, decide_eq_true_eq, beq_iff_eq] at listed
  rcases listed with (((⟨-, h⟩ | ⟨-, h⟩) | ⟨-, h⟩) | rfl)
  · have := UInt32.le_iff_toNat_le.mp h
    simp at this
    omega
  · have := UInt32.le_iff_toNat_le.mp h
    simp at this
    omega
  · have := UInt32.le_iff_toNat_le.mp h
    simp at this
    omega
  · decide

theorem isWordChar_of_isPlain {c : Char} (h : isPlain c) : isWordChar c := by
  rw [isWordChar, if_pos (toNat_of_isPlain h)]
  exact h

theorem isBlank_of_isPlain {c : Char} (h : isPlain c) : isBlank c = false :=
  isBlank_of_isWordChar (isWordChar_of_isPlain h)

theorem ne_of_isPlain {c d : Char} (h : isPlain c) (other : isPlain d = false) : c ≠ d := by
  rintro rfl
  simp [h] at other

theorem isLight_of_isPlain {c : Char} (h : isPlain c) : Dart.Line.isLight c := by
  have other : ∀ d ∈ ['@', '\n', '/', '\'', '"', '\x7b', '\x7d', '\\'], isPlain d = false := by
    decide
  have apart : ∀ d ∈ ['@', '\n', '/', '\'', '"', '\x7b', '\x7d', '\\'], c ≠ d :=
    fun d member => ne_of_isPlain h (other d member)
  simp only [List.mem_cons, List.not_mem_nil, or_false, forall_eq_or_imp, forall_eq] at apart
  simp [Dart.Line.isLight, Dart.Line.isTidy, Dart.Line.isQuote, apart]

end Text

namespace Fresh

theorem isLight_of_isTypeChar {c : Char} (h : isTypeChar c) : Dart.Line.isLight c := by
  simp only [isTypeChar, Bool.or_eq_true, Bool.and_eq_true, beq_iff_eq, bne_iff_ne] at h
  rcases h with (((((plain | rfl) | rfl) | rfl) | rfl) | ⟨blank, feed⟩)
  · exact Text.isLight_of_isPlain plain
  · decide
  · decide
  · decide
  · decide
  · have solid : ∀ d ∈ ['@', '/', '\'', '"', '\x7b', '\x7d', '\\'], isBlank d = false := by decide
    have apart : ∀ d ∈ ['@', '/', '\'', '"', '\x7b', '\x7d', '\\'], c ≠ d := by
      rintro d member rfl
      simp [solid c member] at blank
    simp only [List.mem_cons, List.not_mem_nil, or_false, forall_eq_or_imp, forall_eq] at apart
    simp [Dart.Line.isLight, Dart.Line.isTidy, Dart.Line.isQuote, apart, feed]

namespace IsIdentifier

variable {t : Text}

theorem ne_nil (h : IsIdentifier t) : t ≠ [] := by
  obtain ⟨c, rest, rfl, -⟩ := h.first
  simp

theorem wordChars (h : IsIdentifier t) : ∀ c ∈ t, isWordChar c :=
  fun c member => Text.isWordChar_of_isPlain (h.plain c member)

theorem solid (h : IsIdentifier t) : ∀ c ∈ t, isBlank c = false :=
  fun c member => Text.isBlank_of_isPlain (h.plain c member)

theorem words (h : IsIdentifier t) : t.words = [t] :=
  Text.words_of_forall h.wordChars h.ne_nil

theorem light (h : IsIdentifier t) : t.all Dart.Line.isLight := by
  rw [List.all_eq_true]
  exact fun c member => Text.isLight_of_isPlain (h.plain c member)

theorem ink (h : IsIdentifier t) : t.ink = t :=
  Text.ink_eq_self h.solid

theorem notMem (h : IsIdentifier t) {c : Char} (other : Text.isPlain c = false) : c ∉ t := by
  intro member
  simp [h.plain c member] at other

theorem passes (h : IsIdentifier t) (depth : Int) :
    Text.Passes angleStep isBlank depth t depth := by
  apply Text.passes_of_forall
  intro c member
  have open_ : c ≠ '<' := Text.ne_of_isPlain (h.plain c member) (by decide)
  have close_ : c ≠ '>' := Text.ne_of_isPlain (h.plain c member) (by decide)
  exact ⟨by simp [angleStep, open_, close_], h.solid c member⟩

end IsIdentifier

/-! ## Angle brackets -/

theorem anglesClose_cons {c : Char} (open_ : c ≠ '<') (close_ : c ≠ '>') (depth : Nat)
    (rest : Text) :
    anglesClose depth (c :: rest) = anglesClose depth rest := by
  simp [anglesClose, open_, close_]

theorem anglesClose_ink (depth : Nat) (t : Text) :
    anglesClose depth t.ink = anglesClose depth t := by
  induction t generalizing depth with
  | nil => rfl
  | cons c rest ih =>
      by_cases blank : isBlank c
      · have open_ : c ≠ '<' := by
          rintro rfl
          exact absurd blank (by decide)
        have close_ : c ≠ '>' := by
          rintro rfl
          exact absurd blank (by decide)
        rw [Text.ink_cons_of_blank blank, anglesClose_cons open_ close_, ih]
      · rw [Text.ink_cons (by simpa using blank), anglesClose, anglesClose, ih, ih, ih]

/-- Between brackets nothing is cut, for the outer one is still open. -/
theorem passes_of_anglesClose {depth : Nat} {inner : Text} (closed : anglesClose depth inner) :
    Text.Passes angleStep isBlank (depth + 1) inner 1 := by
  induction inner generalizing depth with
  | nil =>
      have : depth = 0 := by simpa [anglesClose] using closed
      simp [Text.Passes, this]
  | cons c rest ih =>
      by_cases open_ : c = '<'
      · subst open_
        refine ⟨?_, ?_⟩
        · intro _
          show (depth : Int) + 1 + 1 ≠ 0
          omega
        · have inside : anglesClose (depth + 1) rest := by simpa [anglesClose] using closed
          have passes := ih inside
          show Text.Passes angleStep isBlank ((depth : Int) + 1 + 1) rest 1
          exact_mod_cast passes
      · by_cases close_ : c = '>'
        · subst close_
          have inside : depth ≠ 0 ∧ anglesClose (depth - 1) rest := by
            simpa [anglesClose] using closed
          have := ih inside.2
          have level : ((depth : Int) + 1) + angleStep '>' = ((depth - 1 : Nat) : Int) + 1 := by
            have : angleStep '>' = -1 := rfl
            omega
          refine ⟨?_, ?_⟩
          · intro blank
            exact absurd blank (by decide)
          · rw [level]
            exact this
        · have level : angleStep c = 0 := by simp [angleStep, open_, close_]
          rw [anglesClose_cons open_ close_] at closed
          refine ⟨?_, ?_⟩
          · intro _
            rw [level]
            omega
          · rw [level, Int.add_zero]
            exact ih closed

/-- Two texts whose brackets close end at the same closing bracket. -/
theorem eq_of_anglesClose {depth : Nat} {a b rest rest' : Text} (first : anglesClose depth a)
    (second : anglesClose depth b) (same : a ++ '>' :: rest = b ++ '>' :: rest') :
    a = b ∧ rest = rest' := by
  induction a generalizing depth b with
  | nil =>
      have level : depth = 0 := by simpa [anglesClose] using first
      cases b with
      | nil => simpa using same
      | cons c tail =>
          simp only [List.nil_append, List.cons_append, List.cons.injEq] at same
          rw [← same.1, level] at second
          simp [anglesClose] at second
  | cons c tail ih =>
      cases b with
      | nil =>
          have level : depth = 0 := by simpa [anglesClose] using second
          simp only [List.nil_append, List.cons_append, List.cons.injEq] at same
          rw [same.1, level] at first
          simp [anglesClose] at first
      | cons d other =>
          simp only [List.cons_append, List.cons.injEq] at same
          obtain ⟨rfl, same⟩ := same
          have step : ∀ inner, anglesClose inner tail → anglesClose inner other →
              c :: tail = c :: other ∧ rest = rest' := by
            intro inner one two
            have := ih one two same
            exact ⟨by rw [this.1], this.2⟩
          simp only [anglesClose] at first second
          split at first
          · rename_i opens
            rw [if_pos opens] at second
            exact step _ first second
          · rename_i opens
            rw [if_neg opens] at second
            split at first
            · rename_i closes
              rw [if_pos closes] at second
              simp only [Bool.and_eq_true] at first second
              exact step _ first.2 second.2
            · rename_i closes
              rw [if_neg closes] at second
              exact step _ first second

/-! ## Types -/

namespace TypeText

variable (t : TypeText)

def behindName : Text :=
  (t.arguments.map fun inner => '<' :: (inner ++ ['>'])).getD [] ++ if t.nullable then ['?'] else []

theorem text_eq : t.text = t.name ++ t.behindName := rfl

theorem text_ne_nil : t.text ≠ [] := by
  rw [text_eq]
  simp [t.isIdentifier.ne_nil]

theorem typeChars_text : ∀ c ∈ t.text, isTypeChar c := by
  intro c member
  rw [text_eq, List.mem_append] at member
  rcases member with member | member
  · simp [isTypeChar, t.isIdentifier.plain c member]
  · rw [behindName, List.mem_append] at member
    rcases member with member | member
    · cases arguments : t.arguments with
      | none => simp [arguments] at member
      | some inner =>
          have inside := t.typeChars inner arguments
          simp only [arguments, Option.map_some, Option.getD_some, List.mem_cons, List.mem_append,
            List.not_mem_nil, or_false] at member
          rcases member with rfl | member | rfl
          · decide
          · exact List.all_eq_true.mp inside c member
          · decide
    · split at member
      · simp only [List.mem_singleton] at member
        subst member
        decide
      · simp at member

theorem light_text : t.text.all Dart.Line.isLight := by
  rw [List.all_eq_true]
  exact fun c member => isLight_of_isTypeChar (t.typeChars_text c member)

theorem passes_text : Text.Passes angleStep isBlank 0 t.text 0 := by
  have mark : Text.Passes angleStep isBlank 0 (if t.nullable then ['?'] else []) 0 := by
    split
    · exact Text.passes_of_forall (by decide) 0
    · rfl
  have brackets : Text.Passes angleStep isBlank 0
      ((t.arguments.map fun inner => '<' :: (inner ++ ['>'])).getD []) 0 := by
    cases arguments : t.arguments with
    | none => rfl
    | some inner =>
        have inside := passes_of_anglesClose (t.closed inner arguments)
        have opening : Text.Passes angleStep isBlank 0 ['<'] 1 := ⟨by decide, rfl⟩
        exact opening.append (inside.append ⟨by decide, rfl⟩)
  exact (t.isIdentifier.passes 0).append (brackets.append mark)

theorem notMem_text {c : Char} (other : isTypeChar c = false) : c ∉ t.text := by
  intro member
  simp [t.typeChars_text c member] at other

end TypeText

end Fresh

end ValueClass
