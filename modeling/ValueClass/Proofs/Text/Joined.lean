import ValueClass.Proofs.Text.Listed

/-! # Joined pieces

Pieces that are joined come back when the text is split outside brackets, for in a piece
whose brackets are properly nested the count of open brackets is back at zero just where
the piece has ended.
-/

namespace ValueClass.Text

/-! ## Properly nested brackets -/

/-- Brackets of some kinds, given with what closes them, are properly nested in a text, and
    the characters outside of them satisfy `outer`. -/
inductive Bracketed (kinds : List (Char × Char)) : (Char → Prop) → Text → Prop
  /-- Characters that are no brackets. -/
  | plain {outer : Char → Prop} {t : Text} :
      (∀ c ∈ t, outer c ∧ ∀ kind ∈ kinds, c ≠ kind.1 ∧ c ≠ kind.2) → Bracketed kinds outer t
  /-- A bracket, closed by its own kind behind a text of any characters. -/
  | group {outer : Char → Prop} {kind : Char × Char} {inside : Text} : kind ∈ kinds →
      Bracketed kinds (fun _ => True) inside →
        Bracketed kinds outer (kind.1 :: (inside ++ [kind.2]))
  /-- One text behind another. -/
  | append {outer : Char → Prop} {a b : Text} : Bracketed kinds outer a → Bracketed kinds outer b →
      Bracketed kinds outer (a ++ b)

/-- Brackets of every kind, with what closes them. -/
def bracketKinds : List (Char × Char) :=
  [('<', '>'), ('(', ')'), ('[', ']'), ('\x7b', '\x7d')]

def angleKinds : List (Char × Char) :=
  [('<', '>')]

/-- A splitter counts the brackets of some kinds, and no bracket is a place where it cuts. -/
structure Counts (kinds : List (Char × Char)) (step : Char → Int) (cuts : Char → Bool) : Prop where
  opening : ∀ kind ∈ kinds, step kind.1 = 1
  closing : ∀ kind ∈ kinds, step kind.2 = -1 ∧ cuts kind.2 = false
  level : ∀ c, (∀ kind ∈ kinds, c ≠ kind.1 ∧ c ≠ kind.2) → step c = 0

theorem counts_brackets : Counts bracketKinds bracketStep (· == ',') where
  opening := by decide
  closing := by decide
  level := by
    intro c apart
    simp only [bracketKinds, List.forall_mem_cons] at apart
    simp [bracketStep, apart]

theorem counts_angles : Counts angleKinds angleStep isBlank where
  opening := by decide
  closing := by decide
  level := by
    intro c apart
    simp only [angleKinds, List.forall_mem_cons] at apart
    simp [angleStep, apart]

section Bracketed

variable {kinds : List (Char × Char)} {step : Char → Int} {cuts : Char → Bool} {outer : Char →
  Prop} {t : Text}
  {depth : Int}

theorem Bracketed.passes (h : Bracketed kinds outer t) (counts : Counts kinds step cuts)
    (front : 0 ≤ depth) (whole : depth = 0 → ∀ c, outer c → cuts c = false) :
    Passes step cuts depth t depth := by
  induction h generalizing depth with
  | plain chars =>
      apply passes_of_level
      intro c member
      obtain ⟨outside, apart⟩ := chars c member
      exact ⟨counts.level c apart, fun zero => whole zero c outside⟩
  | @group _ kind inside known _ ih =>
      obtain ⟨closing, uncut⟩ := counts.closing kind known
      have deeper : depth + step kind.1 = depth + 1 := by rw [counts.opening kind known]
      have inner : Passes step cuts (depth + 1) inside (depth + 1) :=
        ih (by omega) fun zero => absurd zero (by omega)
      refine ⟨fun _ => by omega, ?_⟩
      rw [deeper]
      refine inner.append ⟨fun cut => absurd cut (by simp [uncut]), ?_⟩
      rw [closing, Passes]
      omega
  | append _ _ first second => exact (first front whole).append (second front whole)

end Bracketed

theorem isItem_of_bracketed {item : Text} (filled : item ≠ []) (trimmed : item.trim = item)
    (nested : Bracketed bracketKinds (· ≠ ',') item) : IsItem item :=
  ⟨filled, trimmed,
    nested.passes counts_brackets (Int.le_refl 0) fun _ c other => by simpa using other⟩

theorem isToken_of_bracketed {piece : Text} (filled : piece ≠ [])
    (nested : Bracketed angleKinds (fun c => isBlank c = false) piece) : IsToken piece :=
  ⟨filled, nested.passes counts_angles (Int.le_refl 0) fun _ _ solid => solid⟩

/-! ## Joints -/

/-- A text joins some pieces, with a text of its own at each joint. -/
inductive Joined (joint : Text → Prop) : List Text → Text → Prop
  | nil : Joined joint [] []
  /-- One piece, which has no joint. -/
  | single (piece : Text) : Joined joint [piece] piece
  /-- A piece, and others behind the joint. -/
  | cons (piece : Text) {next gap t : Text} {rest : List Text} : joint gap →
    Joined joint (next :: rest) t →
      Joined joint (piece :: next :: rest) (piece ++ gap ++ t)

theorem joined_join (joint : Text → Prop) {sep : Text} (between : joint sep) (pieces : List Text) :
    Joined joint pieces (join sep pieces) := by
  induction pieces with
  | nil => exact .nil
  | cons piece rest ih =>
      cases rest with
      | nil => exact .single piece
      | cons next others => exact .cons piece between ih

section Items

variable {items : List Text} {t before after : Text}

theorem exists_comma {gap : Text} (comma : gap.ink = [',']) :
    ∃ left right : Text, gap = left ++ ',' :: right ∧ left.isBlankText ∧ right.isBlankText := by
  obtain ⟨left, right, rfl, none, -, rest⟩ := List.filter_eq_cons_iff.mp comma
  refine ⟨left, right, rfl, ?_, ?_⟩
  · simpa [isBlankText] using none
  · simpa [isBlankText] using rest

theorem isBlankText_of_ink {blanks : Text} (none : blanks.ink = []) : blanks.isBlankText := by
  simpa [ink, isBlankText] using none

theorem Joined.lists (h : Joined (fun gap => gap.ink = [',']) items t) (some : items ≠ [])
    (front : before.isBlankText) (back : after.ink = [] ∨ after.ink = [',']) :
    Lists items (before ++ t ++ after) := by
  induction h generalizing before with
  | nil => exact absurd rfl some
  | single piece =>
      rcases back with blank | comma
      · exact .last front (isBlankText_of_ink blank)
      · obtain ⟨left, right, rfl, blank, rest⟩ := exists_comma comma
        rw [← List.append_assoc]
        exact .cons front blank (.nil rest)
  | @cons piece next gap t rest comma _ ih =>
      obtain ⟨left, right, rfl, blank, behind⟩ := exists_comma comma
      have later : Lists (piece :: next :: rest)
          (before ++ piece ++ left ++ ',' :: (right ++ t ++ after)) :=
        .cons front blank (ih (by simp) behind)
      simpa using later

theorem lists_join (items : List Text) : Lists items (join ", " items) := by
  by_cases none : items = []
  · rw [none]
    exact .nil rfl
  · have comma : ink ", ".toList = [','] := rfl
    have joined := joined_join (fun gap => gap.ink = [',']) comma items
    have listed : Lists items ([] ++ join ", " items ++ []) := joined.lists none rfl (.inl rfl)
    rwa [List.nil_append, List.append_nil] at listed

theorem splitTopLevel_of_ink (back : t.ink = [] ∨ t.ink = [',']) : splitTopLevel ',' t = [] := by
  rcases back with blank | comma
  · exact splitTopLevel_of_lists (.nil (isBlankText_of_ink blank)) (by simp)
  · obtain ⟨left, right, rfl, blank, rest⟩ := exists_comma comma
    rw [splitTopLevel, splitAtDepth_piece (passes_blanks blank 0) (by decide) (by decide),
      splitAtDepth_last (passes_blanks rest 0), List.map_cons, List.map_singleton,
      trim_of_isBlankText blank, trim_of_isBlankText rest]
    rfl

end Items

section Tokens

variable {pieces : List Text} {t : Text}

theorem tokens_append_of_blank {blanks : Text} (blank : blanks.isBlankText) (t : Text) :
    tokens (blanks ++ t) = tokens t := by
  induction blanks with
  | nil => rfl
  | cons c rest ih =>
      rw [isBlankText, List.all_cons, Bool.and_eq_true] at blank
      have nothing : Passes angleStep isBlank 0 [] 0 := rfl
      have cut := splitAtDepth_piece nothing blank.1 (angleStep_of_isBlank blank.1) (rest ++ t)
      rw [List.nil_append] at cut
      rw [List.cons_append, tokens, cut, ← ih blank.2]
      rfl

theorem tokens_of_joined (h : Joined (fun gap => gap ≠ [] ∧ gap.isBlankText) pieces t)
    (each : ∀ p ∈ pieces, IsToken p) : tokens t = pieces := by
  induction h with
  | nil => rfl
  | single piece => exact tokens_last (each piece (by simp)).whole (each piece (by simp)).filled
  | @cons piece next gap t rest blanks _ ih =>
      have here := each piece (by simp)
      obtain ⟨c, more, rfl⟩ := List.exists_cons_of_ne_nil blanks.1
      obtain ⟨blank, behind⟩ : isBlank c ∧ isBlankText more := by
        simpa [isBlankText] using blanks.2
      rw [List.append_assoc, List.cons_append, tokens_cons here.whole here.filled blank,
        tokens_append_of_blank behind, ih fun p member => each p (List.mem_cons_of_mem _ member)]

theorem tokens_join (each : ∀ p ∈ pieces, IsToken p) : tokens (join " " pieces) = pieces := by
  have blank : " ".toList ≠ [] ∧ isBlankText " ".toList := ⟨by simp, rfl⟩
  exact tokens_of_joined (joined_join (fun gap => gap ≠ [] ∧ gap.isBlankText) blank pieces) each

end Tokens

/-- Splitting undoes joining. Items come back that are joined by commas, with blanks around
    each comma and around the whole, and perhaps a comma behind the last; and so do tokens
    that are joined by blanks. -/
theorem split_joined :
    (∀ (items : List Text) (before t after : Text),
        (∀ item ∈ items, item ≠ [] ∧ item.trim = item ∧ Bracketed bracketKinds (· ≠ ',') item) →
        Joined (fun gap => gap.ink = [',']) items t → before.isBlankText → after.ink = [] ∨
          after.ink = [','] →
        splitTopLevel ',' (before ++ t ++ after) = items) ∧
      ∀ (pieces : List Text) (t : Text),
        (∀ piece ∈ pieces, piece ≠ [] ∧ Bracketed angleKinds (fun c => isBlank c = false) piece) →
        Joined (fun gap => gap ≠ [] ∧ gap.isBlankText) pieces t → tokens t = pieces := by
  constructor
  · intro items before t after each joined front back
    by_cases none : items = []
    · subst none
      cases joined
      apply splitTopLevel_of_ink
      rwa [List.append_nil, ink_append, ink_of_isBlankText front, List.nil_append]
    · refine splitTopLevel_of_lists (joined.lists none front back) fun item member => ?_
      obtain ⟨filled, trimmed, nested⟩ := each item member
      exact isItem_of_bracketed filled trimmed nested
  · intro pieces t each joined
    refine tokens_of_joined joined fun piece member => ?_
    obtain ⟨filled, nested⟩ := each piece member
    exact isToken_of_bracketed filled nested

theorem split_joined_nested :
    let items : List Text := ["A<B, C<D>> a", "[b(1, 2), c]"]
    let text : Text := "A<B, C<D>> a ,\n  [b(1, 2), c]"
    let pieces : List Text := ["final", "M<A, B>", "m;"]
    let line : Text := "final \tM<A, B>\n m;"
    (∀ item ∈ items, item ≠ [] ∧ item.trim = item ∧ Bracketed bracketKinds (· ≠ ',') item) ∧
      Joined (fun gap => gap.ink = [',']) items text ∧
      splitTopLevel ',' (" ".toList ++ text ++ ", \n".toList) = items ∧
      (∀ piece ∈ pieces, piece ≠ [] ∧ Bracketed angleKinds (fun c => isBlank c = false) piece) ∧
      Joined (fun gap => gap ≠ [] ∧ gap.isBlankText) pieces line ∧ tokens line = pieces := by
  intro items text pieces line
  have parameter : Bracketed bracketKinds (· ≠ ',') "A<B, C<D>> a".toList :=
    .append (a := "A".toList) (.plain (by decide)) (.append (b := " a".toList)
      (.group (by decide : ('<', '>') ∈ bracketKinds)
        (.append (a := "B, C".toList) (.plain (by decide))
        (.group (by decide : ('<', '>') ∈ bracketKinds) (.plain (t := ['D']) (by decide)))))
      (.plain (by decide)))
  have optional : Bracketed bracketKinds (· ≠ ',') "[b(1, 2), c]".toList :=
    .group (by decide : ('[', ']') ∈ bracketKinds) (.append (a := "b".toList) (.plain (by decide))
      (.append (b := ", c".toList)
        (.group (by decide : ('(', ')') ∈ bracketKinds) (.plain (t := "1, 2".toList) (by decide)))
        (.plain (by decide))))
  have type : Bracketed angleKinds (fun c => isBlank c = false) "M<A, B>".toList :=
    .append (a := "M".toList) (.plain (by decide))
      (.group (by decide : ('<', '>') ∈ angleKinds) (.plain (t := "A, B".toList) (by decide)))
  have listed : ∀ item ∈ items, item ≠ [] ∧ item.trim = item ∧
      Bracketed bracketKinds (· ≠ ',') item := by
    simp only [items, List.forall_mem_cons]
    exact ⟨⟨by decide, by decide, parameter⟩, ⟨by decide, by decide, optional⟩, by simp⟩
  have formed : ∀ piece ∈ pieces, piece ≠ [] ∧
      Bracketed angleKinds (fun c => isBlank c = false) piece := by
    simp only [pieces, List.forall_mem_cons]
    exact ⟨⟨by decide, .plain (by decide)⟩, ⟨by decide, type⟩,
      ⟨by decide, .plain (by decide)⟩, by simp⟩
  have joined : Joined (fun gap => gap.ink = [',']) items text :=
    @Joined.cons _ "A<B, C<D>> a".toList _ " ,\n  ".toList _ _ (by decide)
      (.single "[b(1, 2), c]".toList)
  have spread : Joined (fun gap => gap ≠ [] ∧ gap.isBlankText) pieces line :=
    @Joined.cons _ "final".toList _ " \t".toList _ _ (by decide)
      (@Joined.cons _ "M<A, B>".toList _ "\n ".toList _ _ (by decide) (.single "m;".toList))
  exact ⟨listed, joined, split_joined.1 items _ _ _ listed joined (by decide) (.inr (by decide)),
    formed, spread,
    split_joined.2 pieces line formed spread⟩

end ValueClass.Text
