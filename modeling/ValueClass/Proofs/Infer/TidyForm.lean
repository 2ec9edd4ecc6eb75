import Mathlib.Data.List.Chain
import ValueClass.Proofs.Infer.Tidy

/-! # The tidy form

One line feed ends a text in tidy form, and blank lines stand in it one by one, between
other lines only. Every text is brought to that form, and a text that has it is left
as it is. The lines that are not blank are kept on the way, and so is where blank lines
set them apart.
-/

namespace ValueClass.Text

structure InTidyForm (t : Text) : Prop where
  /-- One line feed ends the text, and not another one in front of it. -/
  ends : ∃ body, t = body ++ ['\n'] ∧ body.getLast? ≠ some '\n'
  /-- No line feed starts the text, unless it is the only character. -/
  starts : t.head? = some '\n' → t = ['\n']
  /-- No line ends in a blank. -/
  trimmed : ∀ line ∈ t.lines, line.trimEnd = line
  /-- Of two lines in a row, as line feeds close them, one is not blank. -/
  spaced : t.lines.dropLast.IsChain fun line next => ¬ (line.isBlankText ∧ next.isBlankText)

def inked (ls : List Text) : List Text :=
  ls.filter fun line => !line.isBlankText

/-- A blank line has this many lines above it that are not blank. -/
def BlankBelow (n : Nat) (ls : List Text) : Prop :=
  ∃ above line below, ls = above ++ line :: below ∧ line.isBlankText ∧ (inked above).length = n

/-- A blank line stands between two lines that are not blank: below the one with number `i` and
    above the one with number `j`, counted from zero among the lines that are not blank. -/
def SetApart (i j : Nat) (ls : List Text) : Prop :=
  ∃ n, BlankBelow n ls ∧ i < n ∧ n ≤ j ∧ j < (inked ls).length

variable {t line : Text} {ls a b core : List Text} {n i j : Nat}

/-! ## Lines without trailing blanks -/

theorem trimEnd_eq_nil_iff : line.trimEnd = [] ↔ line.isBlankText := by
  constructor
  · intro none
    obtain ⟨blanks, blank, split⟩ := trimEnd_append_blank line
    rw [none, List.nil_append] at split
    rwa [split]
  · intro blank
    have gone := trimEnd_append_of_blank blank []
    rwa [List.nil_append] at gone

theorem isBlankText_trimEnd (line : Text) : line.trimEnd.isBlankText = line.isBlankText := by
  obtain ⟨blanks, blank, split⟩ := trimEnd_append_blank line
  rw [isBlankText] at blank
  conv_rhs => rw [split, isBlankText, List.all_append, blank, Bool.and_true]
  rfl

theorem eq_nil_of_trimmed (trimmed : line.trimEnd = line) (blank : line.isBlankText) :
    line = [] := by
  rw [← trimmed, trimEnd_eq_nil_iff]
  exact blank

theorem trimEnd_of_mem_trimmedLines (listed : line ∈ t.trimmedLines) : line.trimEnd = line := by
  obtain ⟨whole, -, rfl⟩ := List.mem_map.mp listed
  exact trimEnd_trimEnd whole

/-! ## Lines that are not blank -/

theorem inked_append (a b : List Text) : inked (a ++ b) = inked a ++ inked b :=
  List.filter_append a b

theorem inked_cons (line : Text) (rest : List Text) :
    inked (line :: rest) = inked [line] ++ inked rest :=
  inked_append [line] rest

theorem inked_replicate (n : Nat) : inked (List.replicate n []) = [] := by
  rw [inked, List.filter_replicate]
  rfl

theorem inked_map_trimEnd (ls : List Text) : inked (ls.map trimEnd) = (inked ls).map trimEnd := by
  rw [inked, List.filter_map]
  congr 1
  apply List.filter_congr
  intro line _
  exact congrArg not (isBlankText_trimEnd line)

theorem inked_squeezeBlankLines (after : Bool) (ls : List Text) :
    inked (squeezeBlankLines after ls) = inked ls := by
  induction ls generalizing after with
  | nil => rfl
  | cons line rest ih =>
      rw [squeezeBlankLines, inked_cons line rest]
      split
      · rename_i empty
        rw [List.isEmpty_iff.mp empty]
        split
        · exact ih true
        · rw [inked_cons, ih]
      · rw [inked_cons, ih]

/-! ## Blank lines -/

theorem blankBelow_nil : ¬ BlankBelow n [] := by
  rintro ⟨above, line, below, split, -⟩
  simp at split

theorem blankBelow_cons {rest : List Text} :
    BlankBelow n (line :: rest) ↔
      (line.isBlankText ∧ n = 0) ∨ ∃ k, n = (inked [line]).length + k ∧ BlankBelow k rest := by
  constructor
  · rintro ⟨above, found, below, split, blank, rfl⟩
    cases above with
    | nil =>
        obtain ⟨rfl, -⟩ := List.cons.inj split
        exact .inl ⟨blank, rfl⟩
    | cons first more =>
        obtain ⟨rfl, rfl⟩ := List.cons.inj split
        refine .inr ⟨_, ?_, more, found, below, rfl, blank, rfl⟩
        rw [inked_cons, List.length_append]
  · rintro (⟨blank, rfl⟩ | ⟨k, rfl, above, found, below, rfl, blank, rfl⟩)
    · exact ⟨[], line, rest, rfl, blank, rfl⟩
    · refine ⟨line :: above, found, below, rfl, blank, ?_⟩
      rw [inked_cons, List.length_append]

theorem blankBelow_append :
    BlankBelow n (a ++ b) ↔ BlankBelow n a ∨ ∃ k, n = (inked a).length + k ∧ BlankBelow k b := by
  induction a generalizing n with
  | nil => simp [blankBelow_nil, inked]
  | cons line rest ih =>
      rw [List.cons_append, blankBelow_cons, blankBelow_cons, inked_cons line rest,
        List.length_append, or_assoc]
      apply or_congr_right
      constructor
      · rintro ⟨k, rfl, below⟩
        rcases ih.mp below with here | ⟨m, rfl, later⟩
        · exact .inl ⟨k, rfl, here⟩
        · exact .inr ⟨m, by omega, later⟩
      · rintro (⟨k, rfl, here⟩ | ⟨m, rfl, later⟩)
        · exact ⟨k, rfl, ih.mpr (.inl here)⟩
        · exact ⟨(inked rest).length + m, by omega, ih.mpr (.inr ⟨m, rfl, later⟩)⟩

theorem blankBelow_map_trimEnd : BlankBelow n (ls.map trimEnd) ↔ BlankBelow n ls := by
  induction ls generalizing n with
  | nil => exact Iff.rfl
  | cons line rest ih =>
      have size : (inked [line.trimEnd]).length = (inked [line]).length := by
        rw [← List.map_singleton, inked_map_trimEnd, List.length_map]
      rw [List.map_cons, blankBelow_cons, blankBelow_cons, isBlankText_trimEnd, size]
      simp only [ih]

/-- What squeezing drops is a blank line right below one. Behind an empty line there is one in front
    of the lines, above which none is counted. -/
theorem blankBelow_squeezeBlankLines_or (after : Bool) (ls : List Text) :
    BlankBelow n (squeezeBlankLines after ls) ∨ (after ∧ n = 0) ↔
      BlankBelow n ls ∨ (after ∧ n = 0) := by
  induction ls generalizing after n with
  | nil => exact Iff.rfl
  | cons line rest ih =>
      have below : ∀ {k : Nat}, BlankBelow k (squeezeBlankLines false rest) ↔
          BlankBelow k rest := by
        simpa using fun {k} => @ih k false
      rw [squeezeBlankLines]
      split
      · rename_i empty
        have empty : line = [] := List.isEmpty_iff.mp empty
        have here : ∀ {ls : List Text}, BlankBelow n ([] :: ls) ↔ BlankBelow n ls ∨ n = 0 := by
          intro ls
          rw [blankBelow_cons, or_comm]
          simp [inked, isBlankText]
        have later : BlankBelow n (squeezeBlankLines true rest) ∨ n = 0 ↔
            BlankBelow n rest ∨ n = 0 := by
          simpa using @ih n true
        rw [empty]
        cases after with
        | true =>
            simp only [here, true_and, or_assoc, or_self]
            exact later
        | false =>
            simp only [Bool.false_eq_true, if_false, here, false_and, or_false]
            exact later
      · rw [blankBelow_cons, blankBelow_cons]
        simp only [below]

theorem blankBelow_squeezeBlankLines (ls : List Text) :
    BlankBelow n (squeezeBlankLines false ls) ↔ BlankBelow n ls := by
  simpa using @blankBelow_squeezeBlankLines_or n false ls

/-- Empty lines around others are not between two of them. -/
theorem blankBelow_around (above below : Nat) (some : 0 < n) (inner : n < (inked core).length) :
    BlankBelow n (List.replicate above [] ++ (core ++ List.replicate below [])) ↔
      BlankBelow n core := by
  have outer : ∀ {k m : Nat}, BlankBelow k (List.replicate m []) → k = 0 := by
    rintro k m ⟨front, line, rest, split, -, rfl⟩
    have none := congrArg inked split
    rw [inked_replicate, inked_append, eq_comm, List.append_eq_nil_iff] at none
    rw [none.1]
    rfl
  constructor
  · intro found
    rcases blankBelow_append.mp found with front | ⟨k, same, found⟩
    · exact absurd (outer front) (by omega)
    · obtain rfl : n = k := by rwa [inked_replicate, List.length_nil, Nat.zero_add] at same
      rcases blankBelow_append.mp found with here | ⟨m, same, -⟩
      · exact here
      · omega
  · intro here
    refine blankBelow_append.mpr (.inr ⟨n, ?_, blankBelow_append.mpr (.inl here)⟩)
    rw [inked_replicate, List.length_nil, Nat.zero_add]

theorem setApart_congr (lines : (inked a).length = (inked b).length)
    (blanks : ∀ n, 0 < n → n < (inked b).length → (BlankBelow n a ↔ BlankBelow n b)) :
    SetApart i j a ↔ SetApart i j b := by
  rw [SetApart, SetApart, lines]
  apply exists_congr
  intro n
  constructor
  · rintro ⟨blank, above, below, size⟩
    exact ⟨(blanks n (by omega) (by omega)).mp blank, above, below, size⟩
  · rintro ⟨blank, above, below, size⟩
    exact ⟨(blanks n (by omega) (by omega)).mpr blank, above, below, size⟩

/-! ## Squeezed lines -/

theorem isChain_squeezeBlankLines (after : Bool) (ls : List Text) :
    (squeezeBlankLines after ls).IsChain (fun line next => ¬ (line = [] ∧ next = [])) ∧
      (after → ∀ line ∈ (squeezeBlankLines after ls).head?, line ≠ []) := by
  induction ls generalizing after with
  | nil => simp [squeezeBlankLines]
  | cons line rest ih =>
      rw [squeezeBlankLines]
      split
      · split
        · rename_i behind
          rw [behind] 
          exact ih true
        · rename_i first
          refine ⟨List.isChain_cons.mpr ⟨?_, (ih true).1⟩, fun behind => absurd behind first⟩
          rintro next head ⟨-, none⟩
          exact (ih true).2 rfl next head none
      · rename_i some
        have some : line ≠ [] := by simpa using some
        refine ⟨List.isChain_cons.mpr ⟨fun next _ both => some both.1, (ih false).1⟩, ?_⟩
        intro _ first head
        simp only [List.head?_cons, Option.mem_some_iff] at head
        rwa [← head]

theorem squeezeBlankLines_of_isChain (after : Bool)
    (spaced : ls.IsChain fun line next => ¬ (line = [] ∧ next = []))
    (head : after → ∀ line ∈ ls.head?, line ≠ []) : squeezeBlankLines after ls = ls := by
  induction ls generalizing after with
  | nil => rfl
  | cons line rest ih =>
      obtain ⟨next, spaced⟩ := List.isChain_cons.mp spaced
      by_cases empty : line = []
      · have first : after = false := by
          rw [Bool.eq_false_iff]
          intro behind
          exact head behind line rfl empty
        rw [squeezeBlankLines, empty, first]
        show [] :: squeezeBlankLines true rest = [] :: rest
        rw [ih true spaced fun _ below listed none => next below listed ⟨empty, none⟩]
      · rw [squeezeBlankLines_cons empty, ih false spaced (by simp)]

/-! ## Line feeds at the ends -/

theorem trimLineFeeds_concat (t : Text) : trimLineFeeds (t ++ ['\n']) = trimLineFeeds t := by
  induction t with
  | nil => rfl
  | cons c rest ih =>
      by_cases feed : c = '\n'
      · have front : ∀ u : Text, trimLineFeeds (c :: u) = trimLineFeeds u := by
          intro u
          rw [trimLineFeeds, List.dropWhile_cons_of_pos (by simpa using feed), trimLineFeeds]
        rw [List.cons_append, front, front, ih]
      · have front : ∀ u : Text, (c :: u).dropWhile (· == '\n') = c :: u :=
          fun u => List.dropWhile_cons_of_neg (by simpa using feed)
        rw [List.cons_append, trimLineFeeds, trimLineFeeds, front, front, ← List.cons_append,
          List.reverse_concat, List.dropWhile_cons_of_pos (by decide)]

theorem trimLineFeeds_unlines_cons (ls : List Text) :
    trimLineFeeds (unlines ([] :: ls)) = trimLineFeeds (unlines ls) := by
  cases ls with
  | nil => rfl
  | cons line rest =>
      rw [unlines_cons_cons, List.nil_append, trimLineFeeds, List.dropWhile_cons_of_pos (by decide),
        trimLineFeeds]

theorem trimLineFeeds_unlines_concat (ls : List Text) :
    trimLineFeeds (unlines (ls ++ [[]])) = trimLineFeeds (unlines ls) := by
  by_cases none : ls = []
  · rw [none]
    rfl
  · rw [unlines_append none (by simp), unlines_singleton, trimLineFeeds_concat]

theorem trimLineFeeds_unlines_around (above below : Nat) (core : List Text) :
    trimLineFeeds (unlines (List.replicate above [] ++ (core ++ List.replicate below []))) =
      trimLineFeeds (unlines core) := by
  induction above with
  | zero =>
      rw [List.replicate_zero, List.nil_append]
      induction below with
      | zero => rw [List.replicate_zero, List.append_nil]
      | succ below ih => rw [List.replicate_succ', ← List.append_assoc,
          trimLineFeeds_unlines_concat, ih]
  | succ above ih => rw [List.replicate_succ, List.cons_append, trimLineFeeds_unlines_cons, ih]

theorem exists_framed (ls : List Text) :
    (∃ n, ls = List.replicate n []) ∨
      ∃ above core below, ls = List.replicate above [] ++ (core ++ List.replicate below []) ∧
        Framed core := by
  induction ls with
  | nil => exact .inl ⟨0, rfl⟩
  | cons line rest ih =>
      by_cases empty : line = []
      · rcases ih with ⟨n, rfl⟩ | ⟨above, core, below, rfl, framed⟩
        · exact .inl ⟨n + 1, by rw [empty, List.replicate_succ]⟩
        · exact .inr ⟨above + 1, core, below, by rw [empty, List.replicate_succ, List.cons_append],
            framed⟩
      · rcases ih with ⟨n, rfl⟩ | ⟨above, core, below, rfl, framed⟩
        · exact .inr ⟨0, [line], n, rfl, ⟨line, [], rfl, empty⟩, [], line, rfl, empty⟩
        · obtain ⟨front, last, rfl, full⟩ := framed.last
          refine .inr ⟨0, line :: (List.replicate above [] ++ (front ++ [last])),
            below, by simp, ?_⟩
          exact ⟨⟨line, _, rfl, empty⟩, line :: (List.replicate above [] ++ front),
            last, by simp, full⟩

/-! ## The body of a tidy text -/

/-- The squeezed lines of a text but for empty ones at the ends. -/
structure IsBody (t : Text) (core : List Text) : Prop where
  framed : Framed core
  around : ∃ above below, squeezeBlankLines false t.trimmedLines =
    List.replicate above [] ++ (core ++ List.replicate below [])

namespace IsBody

variable (h : IsBody t core)

include h

theorem subset : core ⊆ t.trimmedLines := by
  obtain ⟨above, below, split⟩ := h.around
  intro line listed
  apply mem_of_mem_squeezeBlankLines
  rw [split]
  exact List.mem_append_right _ (List.mem_append_left _ listed)

theorem trimmed : ∀ line ∈ core, line.trimEnd = line :=
  fun _ listed => trimEnd_of_mem_trimmedLines (h.subset listed)

theorem whole : ∀ line ∈ core, '\n' ∉ line :=
  fun _ listed => notMem_of_mem_trimmedLines (h.subset listed)

theorem spaced : core.IsChain fun line next => ¬ (line.isBlankText ∧ next.isBlankText) := by
  obtain ⟨above, below, split⟩ := h.around
  have squeezed := (isChain_squeezeBlankLines false t.trimmedLines).1
  rw [split] at squeezed
  refine squeezed.right_of_append.left_of_append.imp_of_mem_imp fun line next listed listed'
    apart both => ?_
  exact apart ⟨eq_nil_of_trimmed (h.trimmed line listed) both.1,
    eq_nil_of_trimmed (h.trimmed next listed') both.2⟩

theorem tidied : tidy t = unlines core ++ ['\n'] := by
  obtain ⟨above, below, split⟩ := h.around
  rw [tidy, ← trimmedLines, split, trimLineFeeds_unlines_around,
    trimLineFeeds_unlines h.framed h.whole]

theorem lines_tidied : (tidy t).lines = core ++ [[]] := by
  rw [h.tidied, lines_append_feed, lines_unlines h.framed.ne_nil h.whole, lines_nil]

theorem inked_core : inked core = (inked t.lines).map trimEnd := by
  obtain ⟨above, below, split⟩ := h.around
  calc
    inked core = inked (squeezeBlankLines false t.trimmedLines) := by
      rw [split, inked_append, inked_append, inked_replicate, inked_replicate, List.nil_append,
        List.append_nil]
    _ = inked t.trimmedLines := inked_squeezeBlankLines false _
    _ = (inked t.lines).map trimEnd := inked_map_trimEnd _

theorem blankBelow_lines_tidied (some : 0 < n) (inner : n < (inked core).length) :
    BlankBelow n (tidy t).lines ↔ BlankBelow n t.lines := by
  obtain ⟨above, below, split⟩ := h.around
  calc
    BlankBelow n (tidy t).lines ↔ BlankBelow n core := by
      rw [h.lines_tidied]
      exact blankBelow_around 0 1 some inner
    _ ↔ BlankBelow n (squeezeBlankLines false t.trimmedLines) := by
      rw [split, blankBelow_around _ _ some inner]
    _ ↔ BlankBelow n t.trimmedLines := blankBelow_squeezeBlankLines _
    _ ↔ BlankBelow n t.lines := blankBelow_map_trimEnd

end IsBody

theorem blank_or_isBody (t : Text) :
    (inked t.lines = [] ∧ tidy t = ['\n']) ∨ ∃ core, IsBody t core := by
  rcases exists_framed (squeezeBlankLines false t.trimmedLines) with
    ⟨n, empty⟩ | ⟨above, core, below, split, framed⟩
  · left
    have none : inked t.trimmedLines = [] := by
      rw [← inked_squeezeBlankLines false, empty, inked_replicate]
    rw [trimmedLines, inked_map_trimEnd, List.map_eq_nil_iff] at none
    have gone := trimLineFeeds_unlines_around n 0 []
    rw [List.replicate_zero, List.append_nil, List.append_nil, ← empty] at gone
    exact ⟨none, by rw [tidy, ← trimmedLines, gone]; rfl⟩
  · exact .inr ⟨core, framed, above, below, split⟩

/-! ## The tidy form of a text -/

/-- Tidying brings a text to the tidy form. -/
theorem inTidyForm_tidy (t : Text) : InTidyForm (tidy t) := by
  rcases blank_or_isBody t with ⟨-, tidied⟩ | ⟨core, body⟩
  · rw [tidied]
    exact ⟨⟨[], rfl, by decide⟩, fun _ => rfl, by decide, by simp [Text.lines, splitWhere]⟩
  · refine ⟨⟨_, body.tidied, body.framed.getLast?_unlines body.whole⟩, ?_, ?_, ?_⟩
    · intro feed
      have first := body.framed.head?_unlines body.whole
      rw [body.tidied] at feed ⊢
      cases text : unlines core with
      | nil => rfl
      | cons c rest =>
          rw [text] at feed first
          exact absurd feed first
    · intro line listed
      rw [body.lines_tidied] at listed
      rcases List.mem_append.mp listed with listed | listed
      · exact body.trimmed line listed
      · rw [List.mem_singleton.mp listed, trimEnd_nil]
    · rw [body.lines_tidied, List.dropLast_concat]
      exact body.spaced

theorem ne_nil_of_getLast?_lines (filled : t ≠ []) (last : t.getLast? ≠ some '\n') :
    ∀ line ∈ t.lines.getLast?, line ≠ [] := by
  rcases List.eq_nil_or_concat t with none | ⟨start, c, split⟩
  · exact absurd none filled
  · rw [List.concat_eq_append] at split
    rw [split, List.getLast?_concat] at last
    obtain ⟨front, line, same⟩ := exists_lines_concat (fun feed => last (congrArg some feed)) start
    rw [split, same]
    simp

/-- A text in tidy form is tidy as it is. -/
theorem tidy_eq_self (h : InTidyForm t) : tidy t = t := by
  obtain ⟨body, rfl, last⟩ := h.ends
  -- The lines of a single line feed are two empty ones, which squeezing does not leave as they are.
  by_cases empty : body = []
  · rw [empty]
    rfl
  · have first : body.head? ≠ some '\n' := by
      intro feed
      have single := h.starts (by rw [List.head?_append_of_ne_nil _ empty, feed])
      exact empty (by simpa using single)
    have lines : Text.lines (body ++ ['\n']) = body.lines ++ [[]] := lines_append_feed body []
    have trimmed : trimmedLines (body ++ ['\n']) = Text.lines (body ++ ['\n']) :=
      (List.map_congr_left h.trimmed).trans (List.map_id _)
    have spaced := h.spaced
    rw [lines, List.dropLast_concat] at spaced
    have chain : (body.lines ++ [[]]).IsChain fun line next => ¬ (line = [] ∧ next = []) := by
      refine List.isChain_append.mpr ⟨?_, List.isChain_singleton _, ?_⟩
      · refine spaced.imp fun line next apart => ?_
        rintro ⟨rfl, rfl⟩
        exact apart ⟨rfl, rfl⟩
      · intro line final _ _ both
        exact ne_nil_of_getLast?_lines empty last line final both.1
    rw [tidy, ← trimmedLines, trimmed, lines, squeezeBlankLines_of_isChain false chain (by simp),
      ← lines, unlines_lines, trimLineFeeds_concat, trimLineFeeds_eq_self first last]

theorem inked_lines_tidy (t : Text) : inked (tidy t).lines = (inked t.lines).map trimEnd := by
  rcases blank_or_isBody t with ⟨none, tidied⟩ | ⟨core, body⟩
  · rw [none, tidied]
    rfl
  · rw [body.lines_tidied, inked_append, body.inked_core]
    exact List.append_nil _

theorem setApart_lines_tidy (t : Text) : SetApart i j (tidy t).lines ↔ SetApart i j t.lines := by
  have size : (inked (tidy t).lines).length = (inked t.lines).length := by
    rw [inked_lines_tidy, List.length_map]
  refine setApart_congr size fun n some inner => ?_
  rcases blank_or_isBody t with ⟨none, -⟩ | ⟨core, body⟩
  · rw [none] at inner
    exact absurd inner (Nat.not_lt_zero n)
  · exact body.blankBelow_lines_tidied some (by rwa [body.inked_core, List.length_map])

/-- Tidying brings every text to the tidy form, once and for all. It keeps the lines that are
    not blank, less the blanks at their ends, and blank lines set the same of them apart. -/
theorem tidy_normalForm (t : Text) :
    InTidyForm (tidy t) ∧ tidy (tidy t) = tidy t ∧
      inked (tidy t).lines = (inked t.lines).map trimEnd ∧
      ∀ i j, SetApart i j (tidy t).lines ↔ SetApart i j t.lines :=
  ⟨inTidyForm_tidy t, tidy_eq_self (inTidyForm_tidy t), inked_lines_tidy t,
    fun _ _ => setApart_lines_tidy t⟩

end ValueClass.Text
