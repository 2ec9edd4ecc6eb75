import ValueClass.Proofs.Dart.ImportLayout
import ValueClass.Text.Layout

/-! # Tidy files

The tidy form of a file is that of its parts. Parts are set off by one blank line, and
none of them begins or ends with one, so blank lines are squeezed within a part and stay
single between two.
-/

namespace ValueClass.Text

/-- The lines of a text without their trailing blanks. -/
def trimmedLines (t : Text) : List Text :=
  t.lines.map trimEnd

/-- Lines that neither begin nor end with an empty one. -/
structure Framed (ls : List Text) : Prop where
  first : ∃ line rest, ls = line :: rest ∧ line ≠ []
  last : ∃ rest line, ls = rest ++ [line] ∧ line ≠ []

namespace Framed

variable {a b ls : List Text}

theorem ne_nil (h : Framed ls) : ls ≠ [] := by
  obtain ⟨line, rest, rfl, -⟩ := h.first
  simp

theorem append (first : Framed a) (second : Framed b) (middle : List Text) :
    Framed (a ++ (middle ++ b)) := by
  obtain ⟨line, rest, rfl, some⟩ := first.first
  obtain ⟨front, last, rfl, full⟩ := second.last
  exact ⟨⟨line, rest ++ (middle ++ (front ++ [last])), rfl, some⟩,
    ⟨line :: rest ++ (middle ++ front), last, by simp, full⟩⟩

end Framed

/-- A text without blanks at its ends. -/
theorem framed_of_ends {first last : Char} (solid : isBlank first = false)
    (closed : isBlank last = false) (middle : Text) :
    Framed (trimmedLines (first :: (middle ++ [last]))) := by
  have feed : ∀ {c : Char}, isBlank c = false → c ≠ '\n' := by
    rintro c other rfl
    exact absurd other (by decide)
  refine ⟨?_, ?_⟩
  · have opens : ∃ line rest, lines (first :: (middle ++ [last])) = (first :: line) :: rest := by
      rw [lines_cons (feed solid)]
      cases lines (middle ++ [last]) with
      | nil => exact ⟨[], [], rfl⟩
      | cons line rest => exact ⟨line, rest, rfl⟩
    obtain ⟨line, rest, same⟩ := opens
    refine ⟨trimEnd (first :: line), rest.map trimEnd, by rw [trimmedLines, same]; rfl, ?_⟩
    intro none
    obtain ⟨blanks, blank, split⟩ := trimEnd_append_blank (first :: line)
    rw [none, List.nil_append] at split
    rw [← split, isBlankText, List.all_cons, solid] at blank
    cases blank
  · obtain ⟨front, line, same⟩ := exists_lines_concat (feed closed) (first :: middle)
    rw [List.cons_append] at same
    refine ⟨front.map trimEnd, line ++ [last], ?_, by simp⟩
    rw [trimmedLines, same, List.map_append, List.map_singleton, trimEnd_concat closed]

/-! ## Squeezing -/

section Squeeze

variable {a b : List Text} {line : Text}

theorem squeezeBlankLines_cons (some : line ≠ []) (after : Bool) (rest : List Text) :
    squeezeBlankLines after (line :: rest) = line :: squeezeBlankLines false rest := by
  rw [squeezeBlankLines, if_neg (by simpa using some)]

theorem squeezeBlankLines_append (front : List Text) (some : line ≠ []) (after : Bool)
    (rest : List Text) :
    squeezeBlankLines after (front ++ line :: rest) =
      squeezeBlankLines after (front ++ [line]) ++ squeezeBlankLines false rest := by
  induction front generalizing after with
  | nil => rw [List.nil_append, List.nil_append, squeezeBlankLines_cons some,
      squeezeBlankLines_cons some]; rfl
  | cons first more ih =>
      rw [List.cons_append, List.cons_append, squeezeBlankLines, squeezeBlankLines]
      split
      · split
        · exact ih true
        · rw [ih true]
          rfl
      · rw [ih false]
        rfl

theorem squeezeBlankLines_gap (first : Framed a) (second : Framed b) :
    squeezeBlankLines false (a ++ ([[]] ++ b)) =
      squeezeBlankLines false a ++ ([[]] ++ squeezeBlankLines false b) := by
  obtain ⟨front, last, rfl, full⟩ := first.last
  obtain ⟨line, rest, rfl, some⟩ := second.first
  have gap : squeezeBlankLines false ([] :: line :: rest) =
      [] :: squeezeBlankLines true (line :: rest) := rfl
  rw [List.append_assoc, List.singleton_append, List.singleton_append,
    squeezeBlankLines_append front full, gap, squeezeBlankLines_cons some,
    squeezeBlankLines_cons some]
  rfl

theorem squeezeBlankLines_concat (front : List Text) (some : line ≠ []) (after : Bool) :
    ∃ rest, squeezeBlankLines after (front ++ [line]) = rest ++ [line] := by
  induction front generalizing after with
  | nil => exact ⟨[], squeezeBlankLines_cons some after []⟩
  | cons first more ih =>
      rw [List.cons_append, squeezeBlankLines]
      split
      · obtain ⟨rest, same⟩ := ih true
        split
        · exact ⟨rest, same⟩
        · exact ⟨[] :: rest, by rw [same]; rfl⟩
      · obtain ⟨rest, same⟩ := ih false
        exact ⟨first :: rest, by rw [same]; rfl⟩

theorem Framed.squeeze (h : Framed a) : Framed (squeezeBlankLines false a) := by
  refine ⟨?_, ?_⟩
  · obtain ⟨line, rest, rfl, some⟩ := h.first
    exact ⟨line, _, squeezeBlankLines_cons some false rest, some⟩
  · obtain ⟨front, line, rfl, some⟩ := h.last
    obtain ⟨rest, same⟩ := squeezeBlankLines_concat front some false
    exact ⟨rest, line, same, some⟩

theorem mem_of_mem_squeezeBlankLines {after : Bool} (h : line ∈ squeezeBlankLines after a) :
    line ∈ a := by
  induction a generalizing after with
  | nil => exact h
  | cons first rest ih =>
      rw [squeezeBlankLines] at h
      split at h
      · rename_i empty
        split at h
        · exact List.mem_cons_of_mem _ (ih h)
        · rcases List.mem_cons.mp h with rfl | h
          · rw [List.isEmpty_iff.mp empty]
            exact List.mem_cons_self
          · exact List.mem_cons_of_mem _ (ih h)
      · rcases List.mem_cons.mp h with rfl | h
        · exact List.mem_cons_self
        · exact List.mem_cons_of_mem _ (ih h)

end Squeeze

/-! ## The tidy form -/

variable {a b t : Text}

theorem trimLineFeeds_eq_self (first : t.head? ≠ some '\n') (last : t.getLast? ≠ some '\n') :
    trimLineFeeds t = t := by
  have start : t.dropWhile (· == '\n') = t := by
    cases t with
    | nil => rfl
    | cons c rest => exact List.dropWhile_cons_of_neg (by simpa using first)
  rw [trimLineFeeds, start]
  exact Dart.Imports.dropFinalLineFeeds_eq_self last

section Unlines

variable {ls : List Text} (framed : Framed ls) (whole : ∀ line ∈ ls, '\n' ∉ line)

include framed whole

theorem Framed.head?_unlines : (unlines ls).head? ≠ some '\n' := by
  obtain ⟨line, rest, rfl, some⟩ := framed.first
  obtain ⟨c, more, rfl⟩ := List.exists_cons_of_ne_nil some
  have front : (unlines ((c :: more) :: rest)).head? = Option.some c := by
    cases rest with
    | nil => rfl
    | cons next others => rw [unlines_cons_cons]; rfl
  rw [front]
  rintro ⟨⟩
  exact whole _ List.mem_cons_self List.mem_cons_self

theorem Framed.getLast?_unlines : (unlines ls).getLast? ≠ some '\n' := by
  obtain ⟨rest, line, rfl, some⟩ := framed.last
  rw [Dart.Imports.getLast?_unlines rest some]
  intro feed
  exact whole line (by simp) (List.mem_of_getLast? feed)

theorem trimLineFeeds_unlines : trimLineFeeds (unlines ls) = unlines ls :=
  trimLineFeeds_eq_self (framed.head?_unlines whole) (framed.getLast?_unlines whole)

end Unlines

theorem notMem_of_mem_trimmedLines {line : Text} (h : line ∈ t.trimmedLines) : '\n' ∉ line := by
  obtain ⟨whole, listed, rfl⟩ := List.mem_map.mp h
  intro feed
  refine notMem_of_mem_lines listed ?_
  rw [trimEnd, List.mem_reverse] at feed
  simpa using (List.dropWhile_suffix _).mem feed

theorem tidy_eq (framed : Framed t.trimmedLines) :
    tidy t = unlines (squeezeBlankLines false t.trimmedLines) ++ ['\n'] := by
  have trimmed := trimLineFeeds_unlines framed.squeeze fun line member =>
    notMem_of_mem_trimmedLines (mem_of_mem_squeezeBlankLines member)
  rw [tidy, ← trimmedLines, trimmed]

theorem trimmedLines_gap (a b : Text) :
    trimmedLines (a ++ "\n\n".toList ++ b) = a.trimmedLines ++ ([[]] ++ b.trimmedLines) := by
  have gap : a ++ "\n\n".toList ++ b = a ++ '\n' :: ('\n' :: b) := by simp
  rw [gap, trimmedLines, lines_append_feed, lines_cons_feed, List.map_append, List.map_cons]
  rfl

theorem tidy_gap (first : Framed a.trimmedLines) (second : Framed b.trimmedLines) :
    tidy (a ++ "\n\n".toList ++ b) = tidy a ++ '\n' :: tidy b := by
  have framed : Framed (trimmedLines (a ++ "\n\n".toList ++ b)) := by
    rw [trimmedLines_gap]
    exact first.append second [[]]
  rw [tidy_eq framed, tidy_eq first, tidy_eq second, trimmedLines_gap,
    squeezeBlankLines_gap first second, unlines_append first.squeeze.ne_nil (by simp),
    List.singleton_append, unlines_cons second.squeeze.ne_nil]
  simp

theorem framed_join {parts : List Text} (framed : ∀ part ∈ parts, Framed part.trimmedLines)
    (some : parts ≠ []) :
    Framed (trimmedLines (join "\n\n" parts)) := by
  induction parts with
  | nil => exact absurd rfl some
  | cons part rest ih =>
      cases rest with
      | nil => exact framed part List.mem_cons_self
      | cons next more =>
          rw [join, trimmedLines_gap]
          exact (framed part List.mem_cons_self).append
            (ih (fun p member => framed p (List.mem_cons_of_mem _ member)) (by simp)) [[]]

theorem tidy_join {parts : List Text} (framed : ∀ part ∈ parts, Framed part.trimmedLines)
    (some : parts ≠ []) :
    tidy (join "\n\n" parts) = join ['\n'] (parts.map tidy) := by
  induction parts with
  | nil => exact absurd rfl some
  | cons part rest ih =>
      cases rest with
      | nil => rfl
      | cons next more =>
          have others : ∀ p ∈ next :: more, Framed p.trimmedLines :=
            fun p member => framed p (List.mem_cons_of_mem _ member)
          rw [join, tidy_gap (framed part List.mem_cons_self) (framed_join others (by simp)),
            ih others (by simp)]
          show tidy part ++ '\n' :: join ['\n'] ((next :: more).map tidy) =
            tidy part ++ ['\n'] ++ join ['\n'] ((next :: more).map tidy)
          rw [List.append_assoc, List.singleton_append]

end ValueClass.Text
