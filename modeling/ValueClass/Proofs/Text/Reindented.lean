import Mathlib.Data.List.Forall2
import ValueClass.Text.Layout
import ValueClass.Proofs.Text.Listed

/-! # Texts indented anew

A block that is indented differs from the text it was made of by blanks behind its line
feeds. So all that is read of a text without regard to those blanks is read of the block
as well, and a part of the text without line feeds stands in the block as it is.
-/

namespace ValueClass.Text

/-- The second text is the first, with blanks put behind some of its line feeds. -/
inductive Reindents : Text → Text → Prop
  /-- There is nothing to indent. -/
  | nil : Reindents [] []
  /-- A character, and blanks behind it if it is a line feed. -/
  | cons {c : Char} {blanks t t' : Text} : blanks.isBlankText → (c ≠ '\n' → blanks = []) →
    Reindents t t' →
      Reindents (c :: t) (c :: (blanks ++ t'))

theorem trim_eq_self {t : Text} (first : ∀ c rest, t = c :: rest → isBlank c = false)
    (last : ∀ c start, t = start ++ [c] → isBlank c = false) : t.trim = t := by
  have whole : trim ([] ++ t) = t := trim_append_of_blank rfl first last
  exact whole

theorem words_append_of_blank {blanks : Text} (blank : blanks.isBlankText) (t : Text) :
    words (blanks ++ t) = words t := by
  induction blanks with
  | nil => rfl
  | cons c rest ih =>
      simp only [isBlankText, List.all_cons, Bool.and_eq_true] at blank
      exact (words_append (isWordChar_of_isBlank blank.1) [] (rest ++ t)).trans (ih blank.2)

namespace Reindents

variable {a b t t' : Text}

theorem char (c : Char) (h : Reindents t t') : Reindents (c :: t) (c :: t') :=
  @Reindents.cons c [] t t' rfl (fun _ => rfl) h

theorem feed {blanks : Text} (blank : blanks.isBlankText) (h : Reindents t t') :
    Reindents ('\n' :: t) ('\n' :: (blanks ++ t')) :=
  .cons blank (fun other => absurd rfl other) h

theorem append {a' b' : Text} (first : Reindents a a') (second : Reindents b b') :
    Reindents (a ++ b) (a' ++ b') := by
  induction first with
  | nil => exact second
  | cons blank only _ ih =>
      rw [List.cons_append, List.cons_append, List.append_assoc]
      exact .cons blank only ih

theorem refl (t : Text) : Reindents t t := by
  induction t with
  | nil => exact .nil
  | cons c rest ih => exact ih.char c

theorem of_append (h : Reindents (a ++ b) t') :
    ∃ a' b', t' = a' ++ b' ∧ Reindents a a' ∧ Reindents b b' := by
  induction a generalizing t' with
  | nil => exact ⟨[], t', rfl, .nil, h⟩
  | cons c rest ih =>
      cases h with
      | @cons _ blanks _ _ blank only later =>
          obtain ⟨a', b', rfl, first, second⟩ := ih later
          exact ⟨c :: (blanks ++ a'), b', by simp, .cons blank only first, second⟩

theorem eq_of_notMem (whole : '\n' ∉ t) (h : Reindents t t') : t' = t := by
  induction h with
  | nil => rfl
  | @cons c blanks t t' _ only _ ih =>
      rw [List.mem_cons, not_or] at whole
      rw [only (Ne.symm whole.1), ih whole.2, List.nil_append]

theorem of_around {part : Text} (whole : '\n' ∉ part) (h : Reindents (a ++ part ++ b) t') :
    ∃ a' b', t' = a' ++ part ++ b' ∧ Reindents a a' ∧ Reindents b b' := by
  obtain ⟨front, b', rfl, first, second⟩ := h.of_append
  obtain ⟨a', part', rfl, before, inside⟩ := first.of_append
  exact ⟨a', b', by rw [inside.eq_of_notMem whole], before, second⟩

theorem eq_nil (h : Reindents t []) : t = [] := by
  cases h
  rfl

/-! ## What is read of both texts -/

theorem ink_eq (h : Reindents t t') : ink t' = ink t := by
  induction h with
  | nil => rfl
  | @cons c blanks t t' blank _ _ ih =>
      rw [← List.singleton_append, ink_append, ink_append, ink_of_isBlankText blank, ih,
        List.nil_append, ← ink_append, List.singleton_append]

theorem isBlankText (blank : t.isBlankText) (h : Reindents t t') : t'.isBlankText := by
  induction h with
  | nil => rfl
  | @cons c blanks t t' here _ _ ih =>
      rw [Text.isBlankText, List.all_cons, Bool.and_eq_true] at blank
      rw [Text.isBlankText, List.all_cons, Bool.and_eq_true]
      exact ⟨blank.1, isBlankText_append here (ih blank.2)⟩

theorem isBlankText_of (h : Reindents t t') (blank : t'.isBlankText) : t.isBlankText := by
  have none := h.ink_eq
  rw [ink_of_isBlankText blank] at none
  simpa [ink, Text.isBlankText] using none.symm

theorem mem (h : Reindents t t') {c : Char} (member : c ∈ t) : c ∈ t' := by
  induction h with
  | nil => exact member
  | cons _ _ _ ih =>
      rw [List.mem_cons] at member ⊢
      exact member.imp id fun inside => List.mem_append_right _ (ih inside)

theorem passes {depth behind : Int} (h : Reindents t t')
    (passed : Passes bracketStep (· == ',') depth t behind) :
    Passes bracketStep (· == ',') depth t' behind := by
  induction h generalizing depth with
  | nil => exact passed
  | cons blank _ _ ih => exact ⟨passed.1, (passes_blanks blank _).append (ih passed.2)⟩

theorem words_eq (h : Reindents t t') : words t' = words t := by
  -- A word may have begun before the text, so the claim is about every text in front.
  have front : ∀ w, words (w ++ t') = words (w ++ t) := by
    induction h with
    | nil => exact fun _ => rfl
    | @cons c blanks t t' blank only _ ih =>
        intro w
        by_cases feed : c = '\n'
        · subst feed
          have stop : isWordChar '\n' = false := by decide
          have later := ih []
          rw [List.nil_append, List.nil_append] at later
          rw [words_append stop, words_append stop, words_append_of_blank blank, later]
        · rw [only feed, List.nil_append, ← List.singleton_append, ← List.append_assoc, ih,
            List.append_assoc, List.singleton_append]
  exact front []

theorem infix_of_infix {part : Text} (h : Reindents t t') (whole : '\n' ∉ part)
    (inside : part <:+: t) :
    part <:+: t' := by
  obtain ⟨a, b, rfl⟩ := inside
  obtain ⟨a', b', rfl, -, -⟩ := h.of_around whole
  exact ⟨a', b', rfl⟩

theorem suffix_of_suffix {part : Text} (h : Reindents t t') (whole : '\n' ∉ part)
    (inside : part <:+ t) :
    part <:+ t' := by
  obtain ⟨a, rfl⟩ := inside
  obtain ⟨a', part', rfl, -, same⟩ := h.of_append
  rw [same.eq_of_notMem whole]
  exact List.suffix_append _ _

theorem trim_eq (h : Reindents t t') (trimmed : t.trim = t) : t'.trim = t' := by
  refine trim_eq_self ?_ ?_
  · rintro c rest rfl
    cases h with
    | cons _ _ _ => exact first_of_trimmed trimmed c _ rfl
  · rintro c start rfl
    rcases List.eq_nil_or_concat t with rfl | ⟨front, d, rfl⟩
    · generalize split : start ++ [c] = whole at h
      cases h
      simp at split
    · rw [List.concat_eq_append] at h trimmed
      have solid := last_of_trimmed trimmed d front rfl
      obtain ⟨front', last, same, -, behind⟩ := h.of_append
      rw [behind.eq_of_notMem (by simpa using (ne_of_isBlank (c := '\n') rfl solid))] at same
      obtain ⟨-, rfl⟩ := List.append_singleton_inj.mp same
      exact solid

theorem of_append_right {start rest' : Text} (whole : '\n' ∉ start)
    (h : Reindents t (start ++ rest')) :
    ∃ rest, t = start ++ rest ∧ Reindents rest rest' := by
  induction start generalizing t with
  | nil => exact ⟨t, rfl, h⟩
  | cons c more ih =>
      rw [List.mem_cons, not_or] at whole
      generalize split : c :: more ++ rest' = t' at h
      cases h with
      | nil => cases split
      | cons blank only later =>
          obtain ⟨rfl, same⟩ := List.cons.inj split
          rw [only (Ne.symm whole.1), List.nil_append] at same
          subst same
          obtain ⟨rest, rfl, behind⟩ := ih whole.2 later
          exact ⟨rest, rfl, behind⟩

/-- A character of the block that is not blank is one of the text. -/
theorem of_append_cons_right {c : Char} (solid : isBlank c = false) {a' b' : Text}
    (h : Reindents t (a' ++ c :: b')) :
    ∃ a b, t = a ++ c :: b ∧ Reindents a a' ∧ Reindents (c :: b) (c :: b') := by
  generalize split : a' ++ c :: b' = whole at h
  induction h generalizing a' with
  | nil => simp at split
  | @cons d blanks t t' blank only later ih =>
      cases a' with
      | nil =>
          obtain ⟨rfl, rfl⟩ := List.cons.inj split
          exact ⟨[], t, rfl, .nil, .cons blank only later⟩
      | cons e more =>
          obtain ⟨rfl, behind⟩ := List.cons.inj split
          -- The character is not one of the blanks, so it stands behind them.
          obtain ⟨front, rfl, rest⟩ : ∃ front, more = blanks ++ front ∧ front ++ c :: b' = t' := by
            rcases List.append_eq_append_iff.mp behind with ⟨tail, inside,
              same⟩ | ⟨front, rfl, same⟩
            · cases tail with
              | nil => exact ⟨[], by simpa using inside.symm, by simpa using same⟩
              | cons d tail =>
                  obtain ⟨rfl, -⟩ := List.cons.inj same
                  have here := List.all_eq_true.mp blank c (by rw [inside]; simp)
                  rw [solid] at here
                  cases here
            · exact ⟨front, rfl, same.symm⟩
          obtain ⟨a, b, rfl, first, second⟩ := ih rest
          exact ⟨e :: a, b, rfl, .cons blank only first, second⟩

/-! ## Lists -/

theorem lists {items : List Text} (h : Reindents t t') (listed : Lists items t) :
    ∃ items', List.Forall₂ Reindents items items' ∧ Lists items' t' := by
  induction listed generalizing t' with
  | nil blank => exact ⟨[], .nil, .nil (h.isBlankText blank)⟩
  | last left right =>
      obtain ⟨front, after', rfl, inside, behind⟩ := h.of_append
      obtain ⟨before', item', rfl, before, here⟩ := inside.of_append
      exact ⟨[item'], .cons here .nil, .last (before.isBlankText left) (behind.isBlankText right)⟩
  | @cons item before after rest items left right _ ih =>
      obtain ⟨front, later', rfl, inside, behind⟩ := h.of_append
      obtain ⟨front', after', rfl, most, trailing⟩ := inside.of_append
      obtain ⟨before', item', rfl, leading, here⟩ := most.of_append
      obtain ⟨comma, rest', rfl, same, later⟩ :=
        Reindents.of_append (a := [',']) (b := rest) behind
      obtain ⟨items', each, listed'⟩ := ih later
      rw [same.eq_of_notMem (by decide)]
      exact ⟨item' :: items', .cons here each,
        .cons (leading.isBlankText left) (trailing.isBlankText right) listed'⟩

end Reindents

/-! ## Blocks -/

theorem reindents_unlines (indent : Text) (blank : indent.isBlankText) (first : Text)
    (ls : List Text) :
    Reindents (unlines (first :: ls))
      (unlines (first :: ls.map fun line => if line.isBlankText then line
        else indent ++ line)) := by
  induction ls generalizing first with
  | nil => exact .refl first
  | cons line rest ih =>
      rw [List.map_cons, unlines_cons_cons, unlines_cons_cons]
      refine (Reindents.refl first).append ?_
      have later := ih line
      split
      · exact later.char '\n'
      · have shifted : unlines ((indent ++ line) :: rest.map fun line =>
          if line.isBlankText then line else indent ++ line) =
            indent ++ unlines (line :: rest.map fun line => if line.isBlankText then line
              else indent ++ line) := by
          cases rest with
          | nil => rfl
          | cons next others => rw [List.map_cons, unlines_cons_cons, unlines_cons_cons,
              List.append_assoc]
        rw [shifted]
        exact later.feed blank

/-- A block is the text behind one indentation, and indented anew. -/
theorem indentBlock_eq {indent : Text} (blank : indent.isBlankText) {c : Char}
    (solid : isBlank c = false) (t : Text) :
    ∃ t', Reindents (c :: t) t' ∧ indentBlock indent (c :: t) = indent ++ t' := by
  obtain ⟨first, rest, split⟩ := List.exists_cons_of_ne_nil (lines_ne_nil (c :: t))
  have whole : unlines (first :: rest) = c :: t := by rw [← split, unlines_lines]
  have filled : first.isBlankText = false := by
    cases first with
    | nil =>
        cases rest with
        | nil => cases whole
        | cons next others =>
            rw [unlines_cons_cons, List.nil_append] at whole
            obtain ⟨rfl, -⟩ := List.cons.inj whole
            cases solid
    | cons d more =>
        have same : d = c := by
          cases rest with
          | nil => exact (List.cons.inj whole).1
          | cons next others =>
              rw [unlines_cons_cons] at whole
              exact (List.cons.inj whole).1
        rw [isBlankText, List.all_cons, same, solid, Bool.false_and]
  have block := reindents_unlines indent blank first rest
  rw [whole] at block
  refine ⟨_, block, ?_⟩
  rw [indentBlock, split, List.map_cons, if_neg (by simp [filled])]
  cases rest with
  | nil => rfl
  | cons next others => rw [List.map_cons, unlines_cons_cons, unlines_cons_cons, List.append_assoc]

end ValueClass.Text
