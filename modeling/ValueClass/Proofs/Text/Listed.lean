import ValueClass.Proofs.Text.Ink
import ValueClass.Proofs.Text.Pieces

/-! # Listed pieces

The items of a list come back from its text, whatever blanks stand around the commas and
whether or not one follows the last item. What is taken apart keeps its ink.
-/

namespace ValueClass.Text

/-! ## Parts that are passed -/

section Passes

variable {step step' : Char → Int} {cuts cuts' : Char → Bool} {depth behind : Int} {a b : Text}

theorem Passes.of_append (h : Passes step cuts depth (a ++ b) behind) :
    ∃ between, Passes step cuts depth a between ∧ Passes step cuts between b behind := by
  induction a generalizing depth with
  | nil => exact ⟨depth, rfl, h⟩
  | cons c rest ih =>
      obtain ⟨between, first, second⟩ := ih h.2
      exact ⟨between, ⟨h.1, first⟩, second⟩

theorem Passes.mono (h : Passes step cuts depth a behind)
    (alike : ∀ c ∈ a, step' c = step c ∧ (cuts' c → cuts c)) :
    Passes step' cuts' depth a behind := by
  induction a generalizing depth with
  | nil => exact h
  | cons c rest ih =>
      obtain ⟨level, less⟩ := alike c (by simp)
      refine ⟨?_, ?_⟩
      · rw [level]
        exact fun cut => h.1 (less cut)
      · rw [level]
        exact ih h.2 fun d member => alike d (List.mem_cons_of_mem _ member)

theorem Passes.head {c : Char} {rest : Text} (h : Passes step cuts 0 (c :: rest) behind)
    (level : step c = 0) :
    cuts c = false := by
  rw [Bool.eq_false_iff]
  intro cut
  exact h.1 cut (by rw [level, Int.zero_add])

theorem Passes.last {c : Char} {start : Text} (h : Passes step cuts depth (start ++ [c]) 0) :
    cuts c = false := by
  obtain ⟨between, -, cut, level⟩ := h.of_append
  rw [Passes] at level
  rw [Bool.eq_false_iff]
  exact fun here => cut here level

end Passes

/-! ## Tokens of a line -/

theorem join_cons_cons (sep first next : Text) (rest : List Text) :
    join sep (first :: next :: rest) = first ++ sep ++ join sep (next :: rest) := rfl

theorem join_append {sep : Text} {a b : List Text} (first : a ≠ []) (second : b ≠ []) :
    join sep (a ++ b) = join sep a ++ sep ++ join sep b := by
  obtain ⟨head, tail, rfl⟩ := List.exists_cons_of_ne_nil second
  induction a with
  | nil => exact absurd rfl first
  | cons piece rest ih =>
      cases rest with
      | nil => rfl
      | cons next others =>
          rw [List.cons_append, List.cons_append, join_cons_cons, ← List.cons_append, ih (by simp),
            join_cons_cons]
          simp only [List.append_assoc]

theorem getLast?_join {sep : Text} {pieces : List Text} (filled : ∀ p ∈ pieces, p ≠ []) :
    (join sep pieces).getLast? = pieces.getLast?.bind List.getLast? := by
  induction pieces with
  | nil => rfl
  | cons piece rest ih =>
      cases rest with
      | nil => rfl
      | cons next others =>
          have later : join sep (next :: others) ≠ [] := by
            have some := filled next (by simp)
            cases others <;> simp [join, some]
          rw [join_cons_cons, List.getLast?_append_of_ne_nil _ later,
            ih fun p member => filled p (by simp [member]), List.getLast?_cons_cons]

/-- A text that is a token of its own: angle brackets close in it, and blanks stand only
    inside of them. -/
structure IsToken (t : Text) : Prop where
  filled : t ≠ []
  whole : Passes angleStep isBlank 0 t 0

theorem angleStep_of_isBlank {c : Char} (blank : isBlank c) : angleStep c = 0 := by
  have apart := fun d (solid : isBlank d = false) => ne_of_isBlank blank solid
  simp [angleStep, apart '<' (by decide), apart '>' (by decide)]

theorem bracketStep_of_isBlank {c : Char} (blank : isBlank c) : bracketStep c = 0 := by
  have apart := fun d (solid : isBlank d = false) => ne_of_isBlank blank solid
  simp [bracketStep, apart '<' (by decide), apart '>' (by decide), apart '(' (by decide),
    apart ')' (by decide), apart '[' (by decide), apart ']' (by decide), apart '\x7b' (by decide),
    apart '\x7d' (by decide)]

theorem isToken_of_solid {t : Text} (filled : t ≠ [])
    (solid : ∀ c ∈ t, isBlank c = false ∧ angleStep c = 0) :
    IsToken t :=
  ⟨filled, passes_of_forall (fun c member => ⟨(solid c member).2, (solid c member).1⟩) 0⟩

theorem IsToken.first {t : Text} (h : IsToken t) : ∀ c rest, t = c :: rest → isBlank c = false := by
  rintro c rest rfl
  by_cases blank : isBlank c
  · exact h.whole.head (angleStep_of_isBlank blank)
  · simpa using blank

theorem IsToken.last {t : Text} (h : IsToken t) :
    ∀ c start, t = start ++ [c] → isBlank c = false := by
  rintro c start rfl
  exact h.whole.last

/-- A line of tokens starts and ends with a character that is not blank. -/
theorem trim_append_join {blanks : Text} (blank : blanks.isBlankText) {pieces : List Text}
    (each : ∀ p ∈ pieces, IsToken p) : trim (blanks ++ join " " pieces) = join " " pieces := by
  apply trim_append_of_blank blank
  · intro c rest same
    cases pieces with
    | nil => cases same
    | cons piece others =>
        have here := each piece (by simp)
        obtain ⟨d, tail, split⟩ := List.exists_cons_of_ne_nil here.filled
        have front : (join " " (piece :: others)).head? = some d := by
          cases others <;> simp [join, split]
        rw [same, List.head?_cons, Option.some.injEq] at front
        exact here.first c tail (by rw [split, front])
  · intro c start same
    have final : (join " " pieces).getLast? = some c := by rw [same, List.getLast?_concat]
    rw [getLast?_join fun p member => (each p member).filled] at final
    obtain ⟨piece, last, ends⟩ := Option.bind_eq_some_iff.mp final
    obtain ⟨front, split⟩ := List.getLast?_eq_some_iff.mp ends
    exact (each piece (List.mem_of_getLast? last)).last c front split

/-! ## Listed items -/

/-- An item of a list: brackets of every kind close in it, commas stand only inside of
    them, and no blank is at either end. -/
structure IsItem (t : Text) : Prop where
  filled : t ≠ []
  trimmed : t.trim = t
  whole : Passes bracketStep (· == ',') 0 t 0

/-- A text lists some items: with commas between them, blanks around them, and perhaps
    a comma behind the last. -/
inductive Lists : List Text → Text → Prop
  /-- There is no item, or none behind the last comma. -/
  | nil {blanks : Text} : blanks.isBlankText → Lists [] blanks
  /-- The last item, without a comma behind it. -/
  | last {item before after : Text} : before.isBlankText → after.isBlankText →
    Lists [item] (before ++ item ++ after)
  /-- An item and the items behind its comma. -/
  | cons {item before after rest : Text} {items : List Text} : before.isBlankText →
    after.isBlankText →
      Lists items rest → Lists (item :: items) (before ++ item ++ after ++ ',' :: rest)

theorem passes_blanks {blanks : Text} (blank : blanks.isBlankText) (depth : Int) :
    Passes bracketStep (· == ',') depth blanks depth := by
  apply passes_of_forall
  intro c member
  have here := List.all_eq_true.mp blank c member
  exact ⟨bracketStep_of_isBlank here, by simpa using ne_of_isBlank here (by decide)⟩

theorem isBlank_last_trimEnd {t start : Text} {c : Char} (h : t.trimEnd = start ++ [c]) :
    isBlank c = false := by
  have reversed : trimStart t.reverse = c :: start.reverse := by
    rw [← List.reverse_reverse (trimStart t.reverse)]
    show t.trimEnd.reverse = _
    rw [h, List.reverse_concat]
  exact isBlank_head_trimStart reversed

theorem first_of_trimmed {t : Text} (trimmed : t.trim = t) :
    ∀ c rest, t = c :: rest → isBlank c = false := by
  intro c rest same
  obtain ⟨blanks, -, split⟩ := trimEnd_append_blank t.trimStart
  have whole : t.trimStart.trimEnd = t := trimmed
  rw [whole, same] at split
  exact isBlank_head_trimStart split

theorem last_of_trimmed {t : Text} (trimmed : t.trim = t) :
    ∀ c start, t = start ++ [c] → isBlank c = false := by
  intro c start same
  have whole : t.trimStart.trimEnd = t := trimmed
  exact isBlank_last_trimEnd (whole.trans same)

theorem trim_around {before item after : Text} (left : before.isBlankText)
    (right : after.isBlankText) (trimmed : item.trim = item) :
    trim (before ++ item ++ after) = item :=
  trim_eq left right (first_of_trimmed trimmed) (last_of_trimmed trimmed)

theorem splitTopLevel_of_lists {items : List Text} {t : Text} (listed : Lists items t)
    (each : ∀ item ∈ items, IsItem item) : splitTopLevel ',' t = items := by
  induction listed with
  | nil blank =>
      rw [splitTopLevel, splitAtDepth_last (passes_blanks blank 0), List.map_singleton,
        trim_of_isBlankText blank]
      rfl
  | @last item before after left right =>
      have here := each item (by simp)
      have whole := ((passes_blanks left 0).append here.whole).append (passes_blanks right 0)
      rw [splitTopLevel, splitAtDepth_last whole, List.map_singleton,
        trim_around left right here.trimmed]
      simp [here.filled]
  | @cons item before after rest items left right _ ih =>
      have here := each item (by simp)
      have whole := ((passes_blanks left 0).append here.whole).append (passes_blanks right 0)
      have later := ih fun p member => each p (List.mem_cons_of_mem _ member)
      rw [splitTopLevel] at later ⊢
      rw [splitAtDepth_piece whole (by decide) (by decide), List.map_cons,
        trim_around left right here.trimmed, List.filter_cons_of_pos (by simpa using here.filled),
        later]

theorem isBlankText_append {a b : Text} (first : a.isBlankText) (second : b.isBlankText) :
    isBlankText (a ++ b) := by
  rw [isBlankText] at first second ⊢
  rw [List.all_append, first, second]
  rfl

/-! ## The ink of pieces -/

section Ink

variable {step : Char → Int} {cuts : Char → Bool}

theorem flatMap_ink_consFirst (c : Char) (pieces : List Text) :
    (consFirst c pieces).flatMap ink = ink [c] ++ pieces.flatMap ink := by
  cases pieces with
  | nil => simp [consFirst]
  | cons piece rest =>
      rw [consFirst, List.flatMap_cons, List.flatMap_cons, ← List.singleton_append, ink_append,
        List.append_assoc]

theorem flatMap_ink_splitAtDepth (blank : ∀ c, cuts c → isBlank c) (depth : Int) (t : Text) :
    (splitAtDepth step cuts depth t).flatMap ink = ink t := by
  induction t generalizing depth with
  | nil => rfl
  | cons c rest ih =>
      rw [splitAtDepth]
      split
      · rename_i cut
        have cut : cuts c = true := by
          simp only [Bool.and_eq_true] at cut
          exact cut.1
        rw [List.flatMap_cons, ih, ink_cons_of_blank (blank c cut)]
        rfl
      · rw [flatMap_ink_consFirst, ih, ← ink_append, List.singleton_append]

theorem flatMap_ink_filter (pieces : List Text) :
    (pieces.filter fun p => !p.isEmpty).flatMap ink = pieces.flatMap ink := by
  induction pieces with
  | nil => rfl
  | cons piece rest ih =>
      cases piece with
      | nil => rw [List.filter_cons_of_neg (by simp), ih, List.flatMap_cons]; rfl
      | cons c tail => rw [List.filter_cons_of_pos (by simp), List.flatMap_cons, ih,
          List.flatMap_cons]

theorem flatMap_ink_tokens (t : Text) : (tokens t).flatMap ink = ink t := by
  rw [tokens, flatMap_ink_filter, flatMap_ink_splitAtDepth fun _ => id]

theorem ink_join (sep : Text) (pieces : List Text) :
    ink (join sep pieces) = join (ink sep) (pieces.map ink) := by
  induction pieces with
  | nil => rfl
  | cons piece rest ih =>
      cases rest with
      | nil => rfl
      | cons next others =>
          rw [join_cons_cons, ink_append, ink_append, ih]
          rfl

theorem ink_join_space (pieces : List Text) : ink (join " " pieces) = pieces.flatMap ink := by
  induction pieces with
  | nil => rfl
  | cons piece rest ih =>
      cases rest with
      | nil => simp [join]
      | cons next others =>
          rw [join_cons_cons, ink_append, ink_append, ih, show ink " ".toList = [] from rfl,
            List.append_nil]
          rfl

theorem join_consFirst (sep : Text) (c : Char) {pieces : List Text} (some : pieces ≠ []) :
    join sep (consFirst c pieces) = c :: join sep pieces := by
  obtain ⟨piece, rest, rfl⟩ := List.exists_cons_of_ne_nil some
  cases rest <;> rfl

theorem splitAtDepth_ne_nil (depth : Int) (t : Text) : splitAtDepth step cuts depth t ≠ [] := by
  cases t with
  | nil => simp [splitAtDepth]
  | cons c rest =>
      rw [splitAtDepth]
      split
      · simp
      · cases splitAtDepth step cuts (depth + step c) rest <;> simp [consFirst]

theorem join_splitAtDepth (sep : Char) (depth : Int) (t : Text) :
    join [sep] (splitAtDepth step (· == sep) depth t) = t := by
  induction t generalizing depth with
  | nil => rfl
  | cons c rest ih =>
      rw [splitAtDepth]
      split
      · rename_i cut
        have same : c = sep := by
          simp only [Bool.and_eq_true, beq_iff_eq] at cut
          exact cut.1
        obtain ⟨piece, pieces, split⟩ := List.exists_cons_of_ne_nil
          (@splitAtDepth_ne_nil step (· == sep) (depth + step c) rest)
        have whole := ih (depth + step c)
        rw [split] at whole ⊢
        rw [join_cons_cons, whole, same]
        rfl
      · rw [join_consFirst _ _ (splitAtDepth_ne_nil _ _), ih]

end Ink

/-- No item of a list is blank: none is missing before, between or behind the commas. -/
def EachFilled (t : Text) : Prop :=
  ∀ piece ∈ splitAtDepth bracketStep (· == ',') 0 t, piece.isBlankText = false

instance (t : Text) : Decidable (EachFilled t) :=
  inferInstanceAs (Decidable (∀ piece ∈ splitAtDepth bracketStep (· == ',') 0 t,
    piece.isBlankText = false))

theorem length_join_comma (pieces : List Text) :
    (join [','] pieces).length = pieces.flatten.length + (pieces.length - 1) := by
  induction pieces with
  | nil => rfl
  | cons piece rest ih =>
      cases rest with
      | nil => simp [join]
      | cons next others =>
          rw [join_cons_cons, List.flatten_cons]
          simp only [List.length_append, ih, List.length_cons, List.length_nil]
          omega

theorem ink_join_splitTopLevel {t : Text} (filled : EachFilled t) :
    ink (join ", " (splitTopLevel ',' t)) = ink t := by
  have every : splitTopLevel ',' t = (splitAtDepth bracketStep (· == ',') 0 t).map trim := by
    rw [splitTopLevel, List.filter_eq_self]
    intro item member
    obtain ⟨piece, inside, rfl⟩ := List.mem_map.mp member
    rw [Bool.not_eq_true', List.isEmpty_eq_false_iff]
    intro none
    have := filled piece inside
    rw [isBlankText_of_trim none] at this
    cases this
  rw [every, ink_join, List.map_map]
  conv_rhs => rw [← @join_splitAtDepth bracketStep ',' 0 t, ink_join]
  have inks : ink ∘ trim = ink := funext ink_trim
  rw [inks]
  rfl

theorem flatMap_ink_splitTopLevel (sep : Char) (t : Text) :
    (splitTopLevel sep t).flatMap ink = (splitAtDepth bracketStep (· == sep) 0 t).flatMap ink := by
  rw [splitTopLevel, flatMap_ink_filter, List.flatMap_map]
  simp only [ink_trim]

/-- Items that are listed anew have no more ink, and less where an item is blank. -/
theorem length_ink_join_splitTopLevel (t : Text) :
    (ink (join ", " (splitTopLevel ',' t))).length ≤ (ink t).length ∧
      ((ink (join ", " (splitTopLevel ',' t))).length = (ink t).length → ink t ≠ [] →
        EachFilled t) := by
  have some : 0 < (splitAtDepth bracketStep (· == ',') 0 t).length :=
    List.length_pos_iff.mpr (splitAtDepth_ne_nil _ _)
  have old : (ink t).length = ((splitAtDepth bracketStep (· == ',') 0 t).flatMap ink).length +
      ((splitAtDepth bracketStep (· == ',') 0 t).length - 1) := by
    have whole : ink t = join [','] ((splitAtDepth bracketStep (· == ',') 0 t).map ink) := by
      conv_lhs => rw [← @join_splitAtDepth bracketStep ',' 0 t, ink_join]
      rfl
    rw [whole, length_join_comma, List.length_map]
    rfl
  have new : (ink (join ", " (splitTopLevel ',' t))).length =
      ((splitAtDepth bracketStep (· == ',') 0 t).flatMap ink).length +
        ((splitTopLevel ',' t).length - 1) := by
    rw [ink_join, show ink ", ".toList = [','] from rfl, length_join_comma, List.length_map,
      ← flatMap_ink_splitTopLevel]
    rfl
  have fewer : (splitTopLevel ',' t).length ≤ (splitAtDepth bracketStep (· == ',') 0 t).length := by
    rw [splitTopLevel]
    exact Nat.le_trans (List.length_filter_le _ _) (Nat.le_of_eq (List.length_map _))
  refine ⟨by omega, ?_⟩
  intro same inked piece inside
  have every : (splitTopLevel ',' t).length = (splitAtDepth bracketStep (· == ',') 0 t).length := by
    by_contra dropped
    -- The one piece there is would be dropped, and it holds all the ink.
    have none : splitTopLevel ',' t = [] := List.length_eq_zero_iff.mp (by omega)
    have empty : (ink (join ", " (splitTopLevel ',' t))).length = 0 := by rw [none]; rfl
    exact inked (List.length_eq_zero_iff.mp (by omega))
  have pieces : (splitAtDepth bracketStep (· == ',') 0 t).length =
      ((splitAtDepth bracketStep (· == ',') 0 t).map trim).length := (List.length_map _).symm
  rw [splitTopLevel, pieces, List.length_filter_eq_length_iff] at every
  have filled := every piece.trim (List.mem_map.mpr ⟨piece, inside, rfl⟩)
  rw [Bool.eq_false_iff]
  intro blank
  rw [trim_of_isBlankText blank] at filled
  cases filled

end ValueClass.Text
