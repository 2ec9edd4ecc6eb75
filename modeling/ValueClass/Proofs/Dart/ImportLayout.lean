import Mathlib.Data.Char
import Mathlib.Data.List.Lex
import Mathlib.Data.List.Sort
import ValueClass.Proofs.Dart.ImportText

/-! # The layout of the import block

The block is written in groups: every directive once, the groups in their order and
each group sorted by code points, with one empty line between two groups. Only which
directives there are decides what is written, not how often or in which order they
were asked for.
-/

namespace ValueClass

/-! ## Sorting -/

theorem textLe_iff {a b : Text} : textLe a b ↔ ¬ b < a := by
  induction a generalizing b with
  | nil => simp [textLe]
  | cons c rest ih =>
      cases b with
      | nil => simp [textLe, List.nil_lt_cons]
      | cons d more =>
          rw [textLe, Bool.or_eq_true, Bool.and_eq_true, ih, List.cons_lt_cons_iff,
            decide_eq_true_eq, beq_iff_eq]
          rcases lt_trichotomy c d with lt | rfl | gt
          · simp [lt, lt.not_gt, lt.ne']
          · simp
          · simp [gt, gt.not_gt, gt.ne']

/-- Putting a text into its place keeps the order strict. -/
theorem pairwise_insertDistinct {t : Text} {ts : List Text} (sorted : ts.Pairwise (· < ·)) :
    (insertDistinct t ts).Pairwise (· < ·) := by
  induction ts with
  | nil => exact List.pairwise_singleton _ _
  | cons first rest ih =>
      obtain ⟨above, below⟩ := List.pairwise_cons.mp sorted
      rw [insertDistinct]
      split
      · exact sorted
      · rename_i other
        have other : t ≠ first := by simpa using other
        split
        · rename_i le
          have before : t < first := lt_of_le_of_ne (not_lt.mp (textLe_iff.mp le)) other
          refine List.pairwise_cons.mpr ⟨?_, sorted⟩
          intro u member
          rcases List.mem_cons.mp member with rfl | member
          · exact before
          · exact before.trans (above u member)
        · rename_i gt
          have after : first < t := by simpa [textLe_iff] using gt
          refine List.pairwise_cons.mpr ⟨?_, ih below⟩
          intro u member
          rcases mem_insertDistinct.mp member with rfl | member
          · exact after
          · exact above u member

theorem pairwise_sortDistinct (ts : List Text) : (sortDistinct ts).Pairwise (· < ·) := by
  induction ts with
  | nil => exact List.Pairwise.nil
  | cons first rest ih => exact pairwise_insertDistinct ih

theorem sortDistinct_congr {ts us : List Text} (same : ∀ t, t ∈ ts ↔ t ∈ us) :
    sortDistinct ts = sortDistinct us := by
  refine (pairwise_sortDistinct ts).eq_of_mem_iff (pairwise_sortDistinct us) fun t => ?_
  rw [mem_sortDistinct, mem_sortDistinct, same]

namespace Dart

/-! ## Groups -/

def ImportGroup.rank (g : ImportGroup) : Nat :=
  ImportGroup.all.idxOf g

/-- Groups of lines, with one empty line between two of them. -/
def spaced : List (List Text) → List Text
  | [] => []
  | [g] => g
  | g :: next :: rest => g ++ [] :: spaced (next :: rest)

/-- Directives of a package in groups: each directive once, sorted by code points among those
    of its group, and the groups in their order. -/
structure IsGrouped (packageName : Option Text) (values : List Text) (groups : List (List Text)) :
    Prop where
  nonempty : ∀ g ∈ groups, g ≠ []
  mem_iff : ∀ line, line ∈ groups.flatten ↔ line ∈ values
  sorted : ∀ g ∈ groups, g.Pairwise (· < ·)
  alike : ∀ g ∈ groups, ∀ a ∈ g, ∀ b ∈ g, ImportGroup.of packageName a =
    ImportGroup.of packageName b
  ordered : groups.Pairwise fun g h => ∀ a ∈ g, ∀ b ∈ h,
    (ImportGroup.of packageName a).rank < (ImportGroup.of packageName b).rank

theorem IsGrouped.nodup {packageName : Option Text} {values : List Text} {groups : List (List Text)}
    (h : IsGrouped packageName values groups) : groups.flatten.Nodup := by
  refine List.nodup_flatten.mpr ⟨fun g member => (h.sorted g member).imp ne_of_lt, ?_⟩
  refine h.ordered.imp fun apart a first second => ?_
  exact absurd (apart a first a second) (Nat.lt_irrefl _)

/-- A line that can be a directive of the block: it holds one directive and nothing around it. -/
structure IsEntry (line : Text) : Prop where
  directive : isDirective line
  trimmed : line.trim = line
  noFeed : '\n' ∉ line

theorem IsEntry.ne_nil {line : Text} (h : IsEntry line) : line ≠ [] := by
  rintro rfl
  exact absurd h.directive (by decide)

theorem isEntry_trim {line : Text} (directive : isDirective line) (noFeed : '\n' ∉ line) :
    IsEntry line.trim := by
  refine ⟨?_, Text.trim_trim line, fun member => noFeed (Text.mem_of_mem_trim member)⟩
  rwa [isDirective, Text.trim_trim]

theorem IsEntry.isBlankText {line : Text} (h : IsEntry line) : line.isBlankText = false := by
  rw [Bool.eq_false_iff]
  intro blank
  exact h.ne_nil (h.trimmed ▸ Text.trim_of_isBlankText blank)

theorem mem_spaced {groups : List (List Text)} {line : Text} (member : line ∈ spaced groups) :
    line = [] ∨ line ∈ groups.flatten := by
  fun_induction spaced groups with
  | case1 => cases member
  | case2 g => exact .inr (by simpa using member)
  | case3 g next rest ih =>
      rcases List.mem_append.mp member with member | member
      · exact .inr (by simp [member])
      · rcases List.mem_cons.mp member with blank | member
        · exact .inl blank
        · refine (ih member).imp_right fun inside => ?_
          rw [List.flatten_cons]
          exact List.mem_append_right _ inside

theorem filter_spaced {groups : List (List Text)} {keep : Text → Bool} (empty : keep [] = false) :
    (spaced groups).filter keep = groups.flatten.filter keep := by
  fun_induction spaced groups with
  | case1 => rfl
  | case2 g => simp
  | case3 g next rest ih =>
      rw [List.filter_append, List.filter_cons_of_neg (by simp [empty]), ih, ← List.filter_append]
      rfl

theorem spaced_ne_nil {groups : List (List Text)} (some : groups ≠ [])
    (nonempty : ∀ g ∈ groups, g ≠ []) :
    spaced groups ≠ [] := by
  fun_cases spaced groups with
  | case1 => exact absurd rfl some
  | case2 g => exact nonempty g (by simp)
  | case3 g next rest => simp

theorem getLast?_spaced {groups : List (List Text)} (nonempty : ∀ g ∈ groups, g ≠ []) :
    (spaced groups).getLast? = groups.flatten.getLast? := by
  fun_induction spaced groups with
  | case1 => rfl
  | case2 g => simp
  | case3 g next rest ih =>
      have others := fun h member => nonempty h (List.mem_cons_of_mem g member)
      have lines : spaced (next :: rest) ≠ [] := spaced_ne_nil (by simp) others
      have some : (next :: rest).flatten ≠ [] := by
        rw [List.flatten_cons]
        exact List.append_ne_nil_of_left_ne_nil (others next (by simp)) _
      rw [List.getLast?_append_of_ne_nil _ (by simp), List.getLast?_cons_of_ne_nil lines, ih others,
        List.flatten_cons (l := g), List.getLast?_append_of_ne_nil _ some]

namespace Imports

variable {imports : Imports}

def groups (imports : Imports) : List (List Text) :=
  (ImportGroup.all.map imports.group).filter fun g => !g.isEmpty

theorem mem_group {g : ImportGroup} {line : Text} :
    line ∈ imports.group g ↔ line ∈ imports.values ∧
      ImportGroup.of imports.packageName line = g := by
  rw [group, mem_sortDistinct, List.mem_filter, beq_iff_eq]

theorem mem_groups {lines : List Text} (member : lines ∈ imports.groups) :
    ∃ g, lines = imports.group g ∧ lines ≠ [] := by
  obtain ⟨listed, some⟩ := List.mem_filter.mp member
  obtain ⟨g, -, rfl⟩ := List.mem_map.mp listed
  exact ⟨g, rfl, by simpa using some⟩

theorem isGrouped_groups (imports : Imports) :
    IsGrouped imports.packageName imports.values imports.groups := by
  refine ⟨?_, ?_, ?_, ?_, ?_⟩
  · intro lines member
    obtain ⟨g, -, some⟩ := mem_groups member
    exact some
  · intro line
    rw [List.mem_flatten]
    constructor
    · rintro ⟨lines, member, inside⟩
      obtain ⟨g, rfl, -⟩ := mem_groups member
      exact (mem_group.mp inside).1
    · intro value
      have inside : line ∈ imports.group (.of imports.packageName line) :=
        mem_group.mpr ⟨value, rfl⟩
      refine ⟨_, List.mem_filter.mpr ⟨List.mem_map.mpr ⟨_, ?_, rfl⟩, ?_⟩, inside⟩
      · generalize ImportGroup.of imports.packageName line = g
        cases g <;> decide
      · simpa using List.ne_nil_of_mem inside
  · intro lines member
    obtain ⟨g, rfl, -⟩ := mem_groups member
    exact pairwise_sortDistinct _
  · intro lines member a first b second
    obtain ⟨g, rfl, -⟩ := mem_groups member
    rw [(mem_group.mp first).2, (mem_group.mp second).2]
  · refine List.Pairwise.filter _ (List.pairwise_map.mpr ?_)
    have ranks : ImportGroup.all.Pairwise fun g h => g.rank < h.rank := by decide
    refine ranks.imp fun {g h} before a first b second => ?_
    rw [(mem_group.mp first).2, (mem_group.mp second).2]
    exact before

theorem dropFinalLineFeeds_feed (t : Text) :
    dropFinalLineFeeds (t ++ ['\n']) = dropFinalLineFeeds t := by
  simp [dropFinalLineFeeds]

theorem dropFinalLineFeeds_eq_self {t : Text} (h : t.getLast? ≠ some '\n') :
    dropFinalLineFeeds t = t := by
  rw [List.getLast?_eq_head?_reverse] at h
  rw [dropFinalLineFeeds]
  cases back : t.reverse with
  | nil => simpa using back.symm
  | cons c rest =>
      have solid : c ≠ '\n' := by simpa [back] using h
      rw [List.dropWhile_cons_of_neg (by simpa using solid), ← back, List.reverse_reverse]

theorem flatMap_blank {groups : List (List Text)} (some : groups ≠ []) :
    groups.flatMap (fun g => g ++ [[]]) = spaced groups ++ [[]] := by
  fun_induction spaced groups with
  | case1 => exact absurd rfl some
  | case2 g => simp
  | case3 g next rest ih =>
      rw [List.flatMap_cons, ih (by simp)]
      simp

theorem getLast?_unlines (front : List Text) {last : Text} (some : last ≠ []) :
    (Text.unlines (front ++ [last])).getLast? = last.getLast? := by
  cases front with
  | nil => rfl
  | cons first more =>
      rw [Text.unlines_append (by simp) (by simp), Text.unlines_singleton,
        List.getLast?_append_of_ne_nil _ (by simp), List.getLast?_cons]
      obtain ⟨c, rest, nonempty⟩ := List.exists_cons_of_ne_nil some
      simp [nonempty, List.getLast?_cons]

/-- The block is its groups, with one empty line between two of them, as long as every
    directive is a line that holds something. -/
theorem formatted_eq_of_lines (lines : ∀ value ∈ imports.values, value ≠ [] ∧ '\n' ∉ value) :
    imports.formatted = Text.unlines (spaced imports.groups) := by
  have written : imports.formatted =
      dropFinalLineFeeds (Text.unlines (imports.groups.flatMap fun g => g ++ [[]])) := rfl
  have grouped := imports.isGrouped_groups
  rw [written]
  by_cases none : imports.groups = []
  · rw [none]
    rfl
  · have some := spaced_ne_nil none grouped.nonempty
    rw [flatMap_blank none, Text.unlines_append some (by simp), Text.unlines_singleton,
      dropFinalLineFeeds_feed]
    apply dropFinalLineFeeds_eq_self
    -- the last line is a directive, and it holds no line feed
    obtain ⟨front, last, same⟩ : ∃ front last, spaced imports.groups = front ++ [last] := by
      rcases List.eq_nil_or_concat (spaced imports.groups) with empty | ⟨front, last, same⟩
      · exact absurd empty some
      · exact ⟨front, last, by rw [same, List.concat_eq_append]⟩
    obtain ⟨nonempty, noFeed⟩ : last ≠ [] ∧ '\n' ∉ last := by
      refine lines last ((grouped.mem_iff last).mp (List.mem_of_getLast? ?_))
      rw [← getLast?_spaced grouped.nonempty, same, List.getLast?_concat]
    rw [same, getLast?_unlines front nonempty]
    intro feed
    exact noFeed (List.mem_of_getLast? feed)

theorem groups_ne_nil (some : imports.values ≠ []) : imports.groups ≠ [] := by
  obtain ⟨value, more, same⟩ := List.exists_cons_of_ne_nil some
  have listed : value ∈ imports.groups.flatten :=
    (imports.isGrouped_groups.mem_iff value).mpr (by simp [same])
  intro none
  rw [none] at listed
  cases listed

theorem isEntry_groups (entries : ∀ value ∈ imports.values, IsEntry value) :
    ∀ line ∈ imports.groups.flatten, IsEntry line :=
  fun line member => entries line ((imports.isGrouped_groups.mem_iff line).mp member)

theorem lines_formatted_of_lines (lines : ∀ value ∈ imports.values, value ≠ [] ∧ '\n' ∉ value)
    (some : imports.values ≠ []) : imports.formatted.lines = spaced imports.groups := by
  have grouped := imports.isGrouped_groups
  rw [formatted_eq_of_lines lines,
    Text.lines_unlines (spaced_ne_nil (groups_ne_nil some) grouped.nonempty)]
  intro line member
  rcases mem_spaced member with rfl | member
  · simp
  · exact (lines line ((grouped.mem_iff line).mp member)).2

theorem formatted_eq (entries : ∀ value ∈ imports.values, IsEntry value) :
    imports.formatted = Text.unlines (spaced imports.groups) :=
  formatted_eq_of_lines fun value member => ⟨(entries value member).ne_nil,
    (entries value member).noFeed⟩

theorem lines_formatted (entries : ∀ value ∈ imports.values, IsEntry value)
    (some : imports.values ≠ []) :
    imports.formatted.lines = spaced imports.groups :=
  lines_formatted_of_lines
    (fun value member => ⟨(entries value member).ne_nil, (entries value member).noFeed⟩) some

theorem groups_congr {other : Imports} (package : imports.packageName = other.packageName)
    (same : ∀ line, line ∈ imports.values ↔ line ∈ other.values) :
    imports.groups = other.groups := by
  have each : imports.group = other.group := by
    funext g
    refine sortDistinct_congr fun line => ?_
    rw [List.mem_filter, List.mem_filter, same, package]
  rw [groups, groups, each]

theorem formatted_congr {other : Imports} (package : imports.packageName = other.packageName)
    (same : ∀ line, line ∈ imports.values ↔ line ∈ other.values) :
    imports.formatted = other.formatted :=
  congrArg (fun groups :
    List (List Text) => dropFinalLineFeeds (Text.unlines (groups.flatMap fun g => g ++ [[]])))
    (groups_congr package same)

end Imports

end Dart

end ValueClass
