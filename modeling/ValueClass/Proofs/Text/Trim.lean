import Mathlib.Data.List.Basic
import Mathlib.Tactic.Common
import ValueClass.Text.Blank
import ValueClass.Text.Word

/-! # Trimmed text

What trimming takes away and what it keeps, and the word at the front of a
trimmed text.
-/

namespace ValueClass

-- What holds of every character of a text is decided on the text, not on all characters there are.
instance Text.decidableForall (t : Text) (p : Char → Prop) [DecidablePred p] :
    Decidable (∀ c ∈ t, p c) :=
  List.decidableBAll p t

instance Text.decidableExists (t : Text) (p : Char → Prop) [DecidablePred p] :
    Decidable (∃ c ∈ t, p c) :=
  List.decidableBEx p t

theorem isWordChar_of_isBlank {c : Char} (h : isBlank c) : isWordChar c = false := by
  simp only [isBlank, Bool.or_eq_true, Bool.and_eq_true, decide_eq_true_eq, beq_iff_eq] at h
  by_cases ascii : c.toNat < 0x80
  · have listed : ∀ n < 0x21, Text.isPlain (Char.ofNat n) = false := by decide
    have low : c.toNat < 0x21 := by omega
    have apart := listed c.toNat low
    rw [Char.ofNat_toNat] at apart
    rw [isWordChar, if_pos ascii, apart]
  · -- the other blanks lie in five gaps between the ranges
    have gaps : wordRanges.all fun range =>
        [(0x85, 0x85), (0xA0, 0xA0), (0x1680, 0x1680), (0x2000, 0x205F),
          (0x3000, 0x3000)].all fun gap =>
          range.2 < gap.1 || gap.2 < range.1 := by
      decide +kernel
    rw [isWordChar, if_neg ascii, inRanges, List.any_eq_false]
    intro range member
    have apart := List.all_eq_true.mp gaps range member
    simp only [List.all_cons, List.all_nil, Bool.and_true, Bool.and_eq_true, Bool.or_eq_true,
      decide_eq_true_eq] at apart ⊢
    omega

theorem isBlank_of_isWordChar {c : Char} (h : isWordChar c) : isBlank c = false := by
  rw [Bool.eq_false_iff]
  intro blank
  simp [isWordChar_of_isBlank blank] at h

theorem ne_of_isBlank {c d : Char} (blank : isBlank c) (solid : isBlank d = false) : c ≠ d := by
  rintro rfl
  rw [blank] at solid
  cases solid

namespace Text

@[simp] theorem trimStart_nil : trimStart [] = [] := rfl

theorem trimStart_cons_of_blank {c : Char} (h : isBlank c) (t : Text) :
    trimStart (c :: t) = trimStart t :=
  List.dropWhile_cons_of_pos h

theorem trimStart_cons {c : Char} (h : isBlank c = false) (t : Text) :
    trimStart (c :: t) = c :: t :=
  List.dropWhile_cons_of_neg (by simp [h])

theorem trimStart_append_of_blank {a : Text} (h : a.isBlankText) (t : Text) :
    trimStart (a ++ t) = trimStart t := by
  induction a with
  | nil => rfl
  | cons c rest ih =>
      simp only [isBlankText, List.all_cons, Bool.and_eq_true] at h
      rw [List.cons_append, trimStart_cons_of_blank h.1, ih h.2]

theorem isBlank_head_trimStart {t : Text} {c : Char} {rest : Text} (h : t.trimStart = c :: rest) :
    isBlank c = false := by
  induction t with
  | nil => simp at h
  | cons d t ih =>
      by_cases blank : isBlank d
      · rw [trimStart_cons_of_blank blank] at h
        exact ih h
      · rw [trimStart_cons (by simpa using blank)] at h
        cases h
        simpa using blank

theorem trimEnd_append_blank (t : Text) :
    ∃ blanks : Text, blanks.isBlankText ∧ t = t.trimEnd ++ blanks := by
  refine ⟨(t.reverse.takeWhile isBlank).reverse, ?_, ?_⟩
  · rw [isBlankText, List.all_reverse, List.all_takeWhile]
  · rw [trimEnd, ← List.reverse_append, List.takeWhile_append_dropWhile, List.reverse_reverse]

theorem trimEnd_append_of_blank {b : Text} (h : b.isBlankText) (t : Text) :
    trimEnd (t ++ b) = trimEnd t := by
  have reversed : trimStart (b.reverse ++ t.reverse) = trimStart t.reverse :=
    trimStart_append_of_blank (by simpa [isBlankText] using h) _
  rw [trimStart, trimStart] at reversed
  rw [trimEnd, trimEnd, List.reverse_append, reversed]

theorem trimEnd_trimEnd (t : Text) : t.trimEnd.trimEnd = t.trimEnd := by
  obtain ⟨blanks, blank, split⟩ := trimEnd_append_blank t
  conv_rhs => rw [split, trimEnd_append_of_blank blank]

theorem trimEnd_of_trimmed {t : Text} (trimmed : t.trim = t) : t.trimEnd = t := by
  rw [← trimmed]
  exact trimEnd_trimEnd t.trimStart

theorem trimEnd_concat {c : Char} (h : isBlank c = false) (t : Text) :
    trimEnd (t ++ [c]) = t ++ [c] := by
  simp [trimEnd, h]

@[simp] theorem trimEnd_nil : trimEnd [] = [] := rfl

theorem mem_of_mem_trim {t : Text} {c : Char} (h : c ∈ t.trim) : c ∈ t := by
  rw [trim, trimEnd, List.mem_reverse] at h
  have inner := (List.dropWhile_suffix _).mem h
  rw [List.mem_reverse] at inner
  exact (List.dropWhile_suffix _).mem inner

theorem trim_eq {before core after : Text} (hb : before.isBlankText) (ha : after.isBlankText)
    (first : ∀ c rest, core = c :: rest → isBlank c = false)
    (last : ∀ c rest, core = rest ++ [c] → isBlank c = false) :
    trim (before ++ core ++ after) = core := by
  rw [trim, List.append_assoc, trimStart_append_of_blank hb]
  cases core with
  | nil =>
      have gone : trimStart after = [] := by
        simpa using trimStart_append_of_blank ha []
      simp [gone]
  | cons c rest =>
      rw [List.cons_append, trimStart_cons (first c rest rfl), ← List.cons_append,
        trimEnd_append_of_blank ha]
      rcases List.eq_nil_or_concat (c :: rest) with none | ⟨start, d, split⟩
      · simp at none
      · rw [split, List.concat_eq_append, trimEnd_concat]
        exact last d start (by simpa using split)

theorem trim_append_of_blank {before core : Text} (blank : before.isBlankText)
    (first : ∀ c rest, core = c :: rest → isBlank c = false)
    (last : ∀ c rest, core = rest ++ [c] → isBlank c = false) : trim (before ++ core) = core := by
  have trimmed : trim (before ++ core ++ []) = core := trim_eq blank rfl first last
  rwa [List.append_nil] at trimmed

theorem trim_of_isBlankText {t : Text} (blank : t.isBlankText) : t.trim = [] := by
  have trimmed : trim (t ++ []) = [] := trim_append_of_blank blank (by simp) (by simp)
  rwa [List.append_nil] at trimmed

theorem firstWord_trimEnd (t : Text) : firstWord t.trimEnd = firstWord t := by
  obtain ⟨blanks, blank, split⟩ := trimEnd_append_blank t
  have noWord : firstWord blanks = [] := by
    cases blanks with
    | nil => rfl
    | cons c rest =>
        simp only [isBlankText, List.all_cons, Bool.and_eq_true] at blank
        simp [firstWord, isWordChar_of_isBlank blank.1]
  conv_rhs => rw [split]
  rw [firstWord, firstWord, List.takeWhile_append]
  split
  · rename_i whole
    rw [firstWord] at noWord
    rw [noWord, List.append_nil]
    exact List.IsPrefix.eq_of_length (List.takeWhile_prefix _) whole
  · rfl

theorem firstWord_eq {w rest : Text} (word : ∀ c ∈ w, isWordChar c)
    (stop : ∀ c tail, rest = c :: tail → isWordChar c = false) : firstWord (w ++ rest) = w := by
  rw [firstWord, List.takeWhile_append_of_pos word]
  cases rest with
  | nil => simp
  | cons c tail => simp [stop c tail rfl]

end Text

end ValueClass
