import ValueClass.Text.Nesting
import ValueClass.Proofs.Text.Lines
import ValueClass.Proofs.Text.Trim

/-! # Ink and signatures

The ink of a text is what is left of it without blanks. A signature is a way to
spell the ink, and one signature starts with another just when the ink of its
text starts with the ink of the other's; so all that is said about the search for
a signature is said about ink.
-/

namespace ValueClass.Text

@[simp] theorem ink_nil : ink [] = [] := rfl

@[simp] theorem ink_append (a b : Text) : ink (a ++ b) = ink a ++ ink b := by
  simp [ink]

theorem ink_cons_of_blank {c : Char} (h : isBlank c) (t : Text) : ink (c :: t) = ink t := by
  simp [ink, h]

theorem ink_cons {c : Char} (h : isBlank c = false) (t : Text) : ink (c :: t) = c :: ink t := by
  simp [ink, h]

theorem ink_of_isBlankText {t : Text} (h : t.isBlankText) : ink t = [] := by
  simpa [ink, isBlankText] using h

theorem ink_eq_self {t : Text} (h : ∀ c ∈ t, isBlank c = false) : ink t = t := by
  simpa [ink] using h

theorem isBlank_of_mem_ink {t : Text} {c : Char} (h : c ∈ ink t) : isBlank c = false := by
  simpa using (List.mem_filter.mp h).2

theorem ink_trim (t : Text) : ink t.trim = ink t := by
  obtain ⟨blanks, blank, split⟩ := trimEnd_append_blank t.trimStart
  have front : ink t.trimStart = ink t := by
    conv_rhs => rw [← List.takeWhile_append_dropWhile (p := isBlank) (l := t)]
    rw [ink_append, ink_of_isBlankText List.all_takeWhile]
    rfl
  rw [← front, trim]
  conv_rhs => rw [split]
  rw [ink_append, ink_of_isBlankText blank, List.append_nil]

theorem isBlankText_of_trim {t : Text} (none : t.trim = []) : t.isBlankText := by
  have ink : ink t = [] := by rw [← ink_trim, none]; rfl
  simpa [Text.ink, isBlankText] using ink

theorem ink_unlines (ls : List Text) : ink (unlines ls) = ls.flatMap ink := by
  induction ls with
  | nil => rfl
  | cons line rest ih =>
      cases rest with
      | nil => simp [unlines_singleton]
      | cons next others =>
          rw [unlines_cons_cons, ink_append, ink_cons_of_blank (by decide), ih]
          rfl

/-! ## Signatures -/

theorem signatureFrom_ink (depth : Nat) (t : Text) :
    signatureFrom depth t = signatureFrom depth t.ink := by
  induction t generalizing depth with
  | nil => rfl
  | cons c rest ih =>
      by_cases blank : isBlank c
      · have open_ : c ≠ '<' := by
          rintro rfl
          exact absurd blank (by decide)
        have close_ : c ≠ '>' := by
          rintro rfl
          exact absurd blank (by decide)
        rw [ink_cons_of_blank blank, signatureFrom]
        simp [blank, open_, close_, ih]
      · rw [ink_cons (by simpa using blank), signatureFrom, signatureFrom, ← ih]

theorem signature_eq (t : Text) : signature t = signatureFrom 0 t.ink := by
  rw [signature, signatureFrom_ink, ink_trim]

theorem ink_signatureFrom (depth : Nat) (t : Text) : ink (signatureFrom depth t) = ink t := by
  induction t generalizing depth with
  | nil => rfl
  | cons c rest ih =>
      rw [signatureFrom]
      generalize (if c == '<' then depth + 1 else if c == '>' then depth - 1 else depth) = inner
      split
      · rename_i blank
        rw [ih, ink_cons_of_blank blank]
      · rename_i blank
        have blank : isBlank c = false := by simpa using blank
        split
        · rename_i comma
          have comma : c = ',' := by
            simp only [Bool.and_eq_true, beq_iff_eq] at comma
            exact comma.1
          rw [comma, ink_cons (by decide), ink_cons_of_blank (by decide), ih, ink_cons (by decide)]
        · rw [ink_cons blank, ink_cons blank, ih]

theorem signatureFrom_append (depth : Nat) (a b : Text) :
    ∃ behind, signatureFrom depth (a ++ b) = signatureFrom depth a ++ signatureFrom behind b := by
  induction a generalizing depth with
  | nil => exact ⟨depth, rfl⟩
  | cons c rest ih =>
      rw [List.cons_append, signatureFrom, signatureFrom]
      generalize (if c == '<' then depth + 1 else if c == '>' then depth - 1 else depth) = inner
      obtain ⟨behind, step⟩ := ih inner
      refine ⟨behind, ?_⟩
      rw [step]
      split
      · rfl
      · split <;> rfl

theorem startsWith_signature_iff (t target : Text) :
    (signature t).startsWith (signature target) ↔ target.ink <+: t.ink := by
  rw [startsWith, List.isPrefixOf_iff_prefix, signature_eq, signature_eq]
  constructor
  · rintro ⟨rest, same⟩
    have inks := congrArg ink same
    rw [ink_append, ink_signatureFrom, ink_signatureFrom] at inks
    refine ⟨ink rest, ?_⟩
    rw [← ink_eq_self (t := t.ink) fun c => isBlank_of_mem_ink, ← inks,
      ink_eq_self (t := target.ink) fun c => isBlank_of_mem_ink]
  · rintro ⟨rest, same⟩
    obtain ⟨behind, split⟩ := signatureFrom_append 0 target.ink rest
    rw [← same, split]
    exact List.prefix_append _ _

theorem ink_signature (t : Text) : ink (signature t) = ink t := by
  rw [signature, ink_signatureFrom, ink_trim]

theorem signature_eq_iff {a b : Text} : signature a = signature b ↔ ink a = ink b := by
  constructor
  · intro same
    rw [← ink_signature a, same, ink_signature]
  · intro same
    rw [signature_eq, same, ← signature_eq]

theorem signature_signature (t : Text) : signature (signature t) = signature t :=
  signature_eq_iff.mpr (ink_signature t)

theorem startsWith_signature (t target : Text) :
    (signature t).startsWith (signature target) = t.ink.startsWith target.ink := by
  rw [Bool.eq_iff_iff, startsWith_signature_iff, startsWith, List.isPrefixOf_iff_prefix]

end ValueClass.Text
