import ValueClass.Text.Nesting
import ValueClass.Text.Word
import ValueClass.Proofs.Text.Lines
import ValueClass.Proofs.Text.Trim

/-! # Pieces of a text

Cutting outside brackets undoes joining: a text that a splitter passes through
without a cut stays one piece, and what follows the next separator is cut on its
own.
-/

namespace ValueClass.Text

theorem foldr_consFirst_cons (t piece : Text) (pieces : List Text) :
    t.foldr consFirst (piece :: pieces) = (t ++ piece) :: pieces := by
  induction t with
  | nil => rfl
  | cons c rest ih => rw [List.foldr_cons, ih]; rfl

/-- A splitter passes through a text, from one depth to another, and cuts
    nowhere. -/
def Passes (step : Char → Int) (cuts : Char → Bool) : Int → Text → Int → Prop
  | depth, [], behind => depth = behind
  | depth, c :: rest, behind =>
    (cuts c → depth + step c ≠ 0) ∧ Passes step cuts (depth + step c) rest behind

instance decidablePasses (step : Char → Int) (cuts : Char → Bool) :
    (depth : Int) → (t : Text) → (behind : Int) → Decidable (Passes step cuts depth t behind)
  | depth, [], behind => inferInstanceAs (Decidable (depth = behind))
  | depth, c :: rest, behind =>
    have := decidablePasses step cuts (depth + step c) rest behind
    inferInstanceAs (Decidable ((cuts c → depth + step c ≠ 0) ∧
      Passes step cuts (depth + step c) rest behind))

section Passes

variable {step : Char → Int} {cuts : Char → Bool}

theorem Passes.append {depth between behind : Int} {a b : Text}
    (first : Passes step cuts depth a between) (second : Passes step cuts between b behind) :
    Passes step cuts depth (a ++ b) behind := by
  induction a generalizing depth with
  | nil =>
      rw [Passes] at first
      rw [first]
      exact second
  | cons c rest ih => exact ⟨first.1, ih first.2⟩

theorem passes_of_level {t : Text} {depth : Int}
    (level : ∀ c ∈ t, step c = 0 ∧ (depth = 0 → cuts c = false)) :
    Passes step cuts depth t depth := by
  induction t with
  | nil => rfl
  | cons c rest ih =>
      obtain ⟨still, uncut⟩ := level c List.mem_cons_self
      rw [Passes, still, Int.add_zero]
      refine ⟨fun cut zero => ?_, ih fun d member => level d (List.mem_cons_of_mem _ member)⟩
      rw [uncut zero] at cut
      cases cut

theorem passes_of_forall {t : Text} (h : ∀ c ∈ t, step c = 0 ∧ cuts c = false) (depth : Int) :
    Passes step cuts depth t depth :=
  passes_of_level fun c member => ⟨(h c member).1, fun _ => (h c member).2⟩

theorem splitAtDepth_append {depth behind : Int} {t : Text}
    (passes : Passes step cuts depth t behind) (rest : Text) :
    splitAtDepth step cuts depth (t ++ rest) =
      t.foldr consFirst (splitAtDepth step cuts behind rest) := by
  induction t generalizing depth with
  | nil =>
      rw [Passes] at passes
      rw [passes]
      rfl
  | cons c tail ih =>
      have uncut : (cuts c && depth + step c == 0) = false := by
        rw [Bool.and_eq_false_iff]
        by_cases h : cuts c
        · exact .inr (by simpa using passes.1 h)
        · exact .inl (by simpa using h)
      rw [List.cons_append, splitAtDepth, uncut, List.foldr_cons, ← ih passes.2]
      rfl

theorem splitAtDepth_piece {t : Text} (passes : Passes step cuts 0 t 0) {c : Char} (cut : cuts c)
    (level : step c = 0) (rest : Text) :
    splitAtDepth step cuts 0 (t ++ c :: rest) = t :: splitAtDepth step cuts 0 rest := by
  rw [splitAtDepth_append passes, splitAtDepth, level]
  simp only [cut, Int.add_zero, beq_self_eq_true, Bool.and_self, ↓reduceIte]
  rw [foldr_consFirst_cons, List.append_nil]

theorem splitAtDepth_last {t : Text} {behind : Int} (passes : Passes step cuts 0 t behind) :
    splitAtDepth step cuts 0 t = [t] := by
  have := splitAtDepth_append passes []
  rwa [List.append_nil, splitAtDepth, foldr_consFirst_cons, List.append_nil] at this

end Passes

/-! ## Tokens -/

section Tokens

variable {t : Text}

theorem tokens_cons (passes : Passes angleStep isBlank 0 t 0) (some : t ≠ []) {c : Char}
    (blank : isBlank c) (rest : Text) : tokens (t ++ c :: rest) = t :: tokens rest := by
  have level : angleStep c = 0 := by
    have open_ : c ≠ '<' := by
      rintro rfl
      exact absurd blank (by decide)
    have close_ : c ≠ '>' := by
      rintro rfl
      exact absurd blank (by decide)
    simp [angleStep, open_, close_]
  simp [tokens, splitAtDepth_piece passes blank level, some]

theorem tokens_last {behind : Int} (passes : Passes angleStep isBlank 0 t behind) (some : t ≠ []) :
    tokens t = [t] := by
  simp [tokens, splitAtDepth_last passes, some]

theorem subset_of_mem_splitAtDepth {step : Char → Int} {cuts : Char → Bool} {depth : Int}
    {t piece : Text} (member : piece ∈ splitAtDepth step cuts depth t) : piece ⊆ t := by
  induction t generalizing depth piece with
  | nil =>
      rw [splitAtDepth, List.mem_singleton] at member
      rw [member]
      exact List.nil_subset _
  | cons c rest ih =>
      rw [splitAtDepth] at member
      split at member
      · rcases List.mem_cons.mp member with rfl | member
        · exact List.nil_subset _
        · exact List.subset_cons_of_subset _ (ih member)
      · cases pieces : splitAtDepth step cuts (depth + step c) rest with
        | nil =>
            rw [pieces, consFirst, List.mem_singleton] at member
            rw [member]
            simp
        | cons first others =>
            rw [pieces, consFirst] at member
            rcases List.mem_cons.mp member with rfl | member
            · exact List.cons_subset_cons _ (ih (by rw [pieces]; simp))
            · exact List.subset_cons_of_subset _
                (ih (by rw [pieces]; exact List.mem_cons_of_mem _ member))

theorem subset_of_mem_tokens {t token : Text} (member : token ∈ tokens t) : token ⊆ t :=
  subset_of_mem_splitAtDepth (List.mem_filter.mp member).1

end Tokens

/-! ## Words -/

theorem splitWhere_append {cuts : Char → Bool} {c : Char} (cut : cuts c) (a b : Text) :
    splitWhere cuts (a ++ c :: b) = splitWhere cuts a ++ splitWhere cuts b := by
  induction a with
  | nil => simp [splitWhere, cut]
  | cons d rest ih =>
      rw [List.cons_append, splitWhere, splitWhere, ih]
      split
      · rfl
      · exact consFirst_append d (splitWhere_ne_nil cuts rest) _

theorem words_append {c : Char} (stop : isWordChar c = false) (a b : Text) :
    words (a ++ c :: b) = words a ++ words b := by
  rw [words, runs, splitWhere_append (by simpa using stop), List.filter_append]
  rfl

theorem splitWhere_of_forall {cuts : Char → Bool} {t : Text} (h : ∀ c ∈ t, cuts c = false) :
    splitWhere cuts t = [t] := by
  induction t with
  | nil => rfl
  | cons c rest ih =>
      rw [splitWhere, h c (by simp), ih fun d member => h d (List.mem_cons_of_mem _ member)]
      rfl

theorem words_of_forall {t : Text} (h : ∀ c ∈ t, isWordChar c) (some : t ≠ []) : words t = [t] := by
  rw [words, runs, splitWhere_of_forall (by simpa using h)]
  simp [some]

@[simp] theorem words_nil : words [] = [] := rfl

/-! ## Parts -/

theorem has_iff_infix {t part : Text} : t.has part ↔ part <:+: t := by
  induction t with
  | nil => simp [has]
  | cons c rest ih =>
      rw [has, Bool.or_eq_true, ih, List.isPrefixOf_iff_prefix, List.infix_cons_iff]

theorem cut?_append {mark : Char} {front : Text} (lacks : mark ∉ front) (rest : Text) :
    cut? [mark] (front ++ mark :: rest) = some (front, rest) := by
  induction front with
  | nil => simp [cut?]
  | cons c tail ih =>
      simp only [List.mem_cons, not_or] at lacks
      have other : [mark].isPrefixOf (c :: (tail ++ mark :: rest)) = false := by
        rw [List.isPrefixOf_cons_cons]
        simp [lacks.1]
      rw [List.cons_append, cut?, other, if_neg Bool.false_ne_true, ih lacks.2]
      rfl

theorem cut?_eq_none {sep : Char} {t : Text} (h : sep ∉ t) : cut? [sep] t = none := by
  induction t with
  | nil => rfl
  | cons c rest ih =>
      simp only [List.mem_cons, not_or] at h
      have : ([sep].isPrefixOf (c :: rest)) = false := by
        rw [List.isPrefixOf_cons_cons]
        simp [h.1]
      rw [cut?, this, ih h.2]
      rfl

theorem trimStart_append_cons {c : Char} (solid : isBlank c = false) (a rest : Text) :
    trimStart (a ++ c :: rest) = trimStart a ++ c :: rest := by
  induction a with
  | nil => rw [List.nil_append, trimStart_cons solid]; rfl
  | cons d tail ih =>
      by_cases blank : isBlank d
      · rw [List.cons_append, trimStart_cons_of_blank blank, trimStart_cons_of_blank blank, ih]
      · have blank : isBlank d = false := by simpa using blank
        rw [List.cons_append, trimStart_cons blank, trimStart_cons blank, List.cons_append]

theorem trimEnd_append_cons {c : Char} (solid : isBlank c = false) (a rest : Text) :
    trimEnd (a ++ c :: rest) = a ++ c :: trimEnd rest := by
  have reversed := trimStart_append_cons solid rest.reverse a.reverse
  rw [trimStart, trimStart] at reversed
  simp [trimEnd, reversed]

theorem dropStart?_eq_some {start t rest : Text} :
    dropStart? start t = some rest ↔ t = start ++ rest := by
  constructor
  · intro h
    simp only [dropStart?] at h
    split at h
    · rename_i starts
      obtain ⟨tail, rfl⟩ := List.isPrefixOf_iff_prefix.mp starts
      rw [Option.some.injEq, List.drop_left] at h
      rw [h]
    · cases h
  · rintro rfl
    simp [dropStart?]

theorem infix_trim {part t : Text} (inside : part <:+: t) (solid : ∀ c ∈ part, isBlank c = false) :
    part <:+: t.trim := by
  obtain ⟨a, b, rfl⟩ := inside
  cases part with
  | nil => exact List.nil_infix
  | cons c tail =>
      have front : trimStart (a ++ (c :: tail) ++ b) = trimStart a ++ (c :: tail) ++ b := by
        have := trimStart_append_cons (solid c (by simp)) a (tail ++ b)
        simpa using this
      rw [trim, front]
      rcases List.eq_nil_or_concat (c :: tail) with none | ⟨start, d, split⟩
      · simp at none
      · rw [List.concat_eq_append] at split
        have last : isBlank d = false := solid d (by rw [split]; simp)
        rw [split,
          show trimStart a ++ (start ++ [d]) ++ b = (trimStart a ++ start) ++ d :: b by simp,
          trimEnd_append_cons last]
        exact ⟨trimStart a, trimEnd b, by simp⟩

end ValueClass.Text
