import Mathlib.Data.List.DropRight
import ValueClass.Proofs.Edit.Plan
import ValueClass.Proofs.Member.Pending
import ValueClass.Proofs.Text.Lines
import ValueClass.Proofs.Text.Pieces

/-! # The text of the import block

The block is made of the directives that were read and of those of the libraries that
members call, each on a line of its own, with blank lines between the groups. None of
these lines opens a class.
-/

namespace ValueClass

theorem mem_insertDistinct {t u : Text} {ts : List Text} :
    t ∈ insertDistinct u ts ↔ t = u ∨ t ∈ ts := by
  induction ts with
  | nil => simp [insertDistinct]
  | cons first rest ih =>
      rw [insertDistinct]
      split
      · rename_i same
        rw [beq_iff_eq.mp same]
        simp
      · split
        · simp
        · rw [List.mem_cons, ih, List.mem_cons]
          exact or_left_comm

@[simp] theorem mem_sortDistinct {t : Text} {ts : List Text} : t ∈ sortDistinct ts ↔ t ∈ ts := by
  induction ts with
  | nil => simp [sortDistinct]
  | cons first rest ih =>
      rw [sortDistinct, List.foldr_cons, mem_insertDistinct, List.mem_cons]
      exact or_congr_right ih

namespace Text

theorem trimStart_trim (t : Text) : t.trim.trimStart = t.trim := by
  rw [trim]
  cases start : t.trimStart with
  | nil => rfl
  | cons c rest =>
      have solid := isBlank_head_trimStart start
      have kept : trimEnd (c :: rest) = c :: trimEnd rest := trimEnd_append_cons solid [] rest
      rw [kept, trimStart_cons solid]

theorem trim_trim (t : Text) : t.trim.trim = t.trim := by
  rw [trim, trimStart_trim, trim, trimEnd, trimEnd, List.reverse_reverse, List.dropWhile_idempotent]

end Text

namespace Dart

def memberLibraries : List LibraryNeed :=
  [convertLibrary, equatableLibrary, metaLibrary, collectionLibrary, foundationLibrary]

theorem library_mem {fields : List Field} {flutter : Bool} {helper : EqualityHelper}
    (h : EqualityHelper.forFields fields flutter = some helper) :
    helper.library ∈ memberLibraries := by
  unfold EqualityHelper.forFields at h
  split at h
  · cases h
  · cases h
    split
    · cases flutter with
      | false => exact (by simp [memberLibraries] : collectionLibrary ∈ memberLibraries)
      | true => exact (by simp [memberLibraries] : foundationLibrary ∈ memberLibraries)
    · exact (by simp [memberLibraries] : collectionLibrary ∈ memberLibraries)

theorem librariesFor_subset (s : Surroundings) (c : ClassDecl) (kind : MemberKind) :
    librariesFor s c kind ⊆ memberLibraries := by
  cases kind with
  | constructor =>
      show (if (ConstructorPlan.ofClass s.style c).needsMeta then [metaLibrary] else []) ⊆
          memberLibraries
      split
      · exact List.cons_subset.mpr ⟨by simp [memberLibraries], List.nil_subset _⟩
      · exact List.nil_subset _
  | equality =>
      intro need member
      obtain ⟨helper, found, rfl⟩ := Option.map_eq_some_iff.mp (Option.mem_toList.mp member)
      exact library_mem found
  | toJson | fromJson | props => exact List.cons_subset.mpr ⟨by simp [memberLibraries],
      List.nil_subset _⟩
  | copyWith | toMap | fromMap | toString | hashCode => exact List.nil_subset _

theorem needsFor_subset (s : Surroundings) (selector : Option MemberKind) (c : ClassDecl) :
    needsFor s selector c ⊆ memberLibraries := by
  intro need member
  obtain ⟨kind, -, inside⟩ := List.mem_flatMap.mp member
  exact librariesFor_subset s c kind inside

/-! ## Directives -/

structure BlockLine (line : Text) : Prop where
  noHeader : Header.isHeader line = false
  noFeed : '\n' ∉ line

theorem blockLine_trim {line : Text} (directive : isDirective line) (noFeed : '\n' ∉ line) :
    BlockLine line.trim := by
  refine ⟨isHeader_of_directive ?_, fun member => noFeed (Text.mem_of_mem_trim member)⟩
  rwa [isDirective, Text.trim_trim]

theorem importLine_library {need : LibraryNeed} (known : need ∈ memberLibraries) :
    isDirective (importLine need.path) ∧ (importLine need.path).trim = importLine need.path ∧
      '\n' ∉ importLine need.path := by
  have each : ∀ need ∈ memberLibraries, isDirective (importLine need.path) ∧
      (importLine need.path).trim = importLine need.path ∧ '\n' ∉ importLine need.path := by
    decide +kernel
  exact each need known

theorem blockLine_library {need : LibraryNeed} (known : need ∈ memberLibraries) :
    BlockLine (importLine need.path) :=
  ⟨isHeader_of_directive (importLine_library known).1, (importLine_library known).2.2⟩

namespace Imports

variable {imports : Imports}

theorem mem_values_readFrom {seenLibrary : Bool} {lineNo : Nat} {lines : List Text} {value : Text}
    (member : value ∈ (imports.readFrom seenLibrary lineNo lines).values) :
    value ∈ imports.values ∨ ∃ line ∈ lines, isDirective line ∧ value = line.trim := by
  induction lines generalizing imports lineNo seenLibrary with
  | nil =>
      rw [readFrom] at member
      exact .inl member
  | cons line rest ih =>
      have below : ∀ next :
          Imports, (value ∈ next.values ∨ ∃ l ∈ rest, isDirective l ∧ value = l.trim) →
          next.values = imports.values →
          value ∈ imports.values ∨ ∃ l ∈ line :: rest, isDirective l ∧ value = l.trim := by
        intro next found same
        rw [← same]
        refine found.imp_right ?_
        rintro ⟨l, inside, directive⟩
        exact ⟨l, List.mem_cons_of_mem _ inside, directive⟩
      rw [readFrom] at member
      dsimp only at member
      split at member
      · rename_i directive
        rcases ih member with old | ⟨l, inside, found⟩
        · rcases List.mem_append.mp old with old | new
          · exact .inl old
          · exact .inr ⟨line, by simp, directive, List.mem_singleton.mp new⟩
        · exact .inr ⟨l, List.mem_cons_of_mem _ inside, found⟩
      · split at member
        · exact below _ (ih member) rfl
        · split at member
          · exact below _ (ih member) rfl
          · exact .inl member

theorem mem_values_requireAll {needs : List LibraryNeed} {value : Text}
    (member : value ∈ (imports.requireAll needs).values) :
    value ∈ imports.values ∨ ∃ need ∈ needs, value = importLine need.path := by
  induction needs generalizing imports with
  | nil => exact .inl member
  | cons need rest ih =>
      have member : value ∈ ((imports.require need.path need.umbrellas).requireAll rest).values :=
        member
      rcases ih member with old | ⟨other, inside, same⟩
      · rw [require] at old
        split at old
        · rcases List.mem_append.mp old with old | new
          · exact .inl old
          · exact .inr ⟨need, by simp, List.mem_singleton.mp new⟩
        · exact .inl old
      · exact .inr ⟨other, List.mem_cons_of_mem _ inside, same⟩

theorem blockLine_of_mem_values {text : Text} {packageName : Option Text} {needs : List LibraryNeed}
    (known : needs ⊆ memberLibraries) {value : Text}
    (member : value ∈ ((ofText text packageName).requireAll needs).values) : BlockLine value := by
  rcases mem_values_requireAll member with old | ⟨need, asked, rfl⟩
  · rcases mem_values_readFrom old with none | ⟨line, inside, directive, rfl⟩
    · cases none
    · exact blockLine_trim directive (Text.notMem_of_mem_lines inside)
  · exact blockLine_library (known asked)

/-! ## The written block -/

theorem lines_dropFinalLineFeeds (t : Text) : (dropFinalLineFeeds t).lines <+: t.lines := by
  have split : t = dropFinalLineFeeds t ++ (t.reverse.takeWhile (· == '\n')).reverse := by
    rw [dropFinalLineFeeds, ← List.reverse_append, List.takeWhile_append_dropWhile,
      List.reverse_reverse]
  have feeds : ∀ c ∈ (t.reverse.takeWhile (· == '\n')).reverse, c = '\n' := by
    intro c member
    exact eq_of_beq (List.all_eq_true.mp List.all_takeWhile c (List.mem_reverse.mp member))
  conv_rhs => rw [split]
  cases behind : (t.reverse.takeWhile (· == '\n')).reverse with
  | nil => simp
  | cons c rest =>
      rw [feeds c (by rw [behind]; simp), Text.lines_append_feed]
      exact List.prefix_append _ _

theorem mem_lines_formatted (each : ∀ value ∈ imports.values, '\n' ∉ value) {line : Text}
    (member : line ∈ imports.formatted.lines) : line = [] ∨ line ∈ imports.values := by
  have whole := (lines_dropFinalLineFeeds _).subset member
  generalize written : ((ImportGroup.all.map imports.group).filter fun g => !g.isEmpty) =
    groups at whole
  have values : ∀ piece ∈ groups.flatMap (fun g => g ++ [[]]), piece = [] ∨
      piece ∈ imports.values := by
    intro piece inside
    obtain ⟨g, listed, inside⟩ := List.mem_flatMap.mp inside
    rcases List.mem_append.mp inside with inside | blank
    · rw [← written] at listed
      obtain ⟨kind, -, rfl⟩ := List.mem_map.mp (List.mem_filter.mp listed).1
      exact .inr (List.mem_filter.mp (mem_sortDistinct.mp inside)).1
    · exact .inl (List.mem_singleton.mp blank)
  by_cases nothing : groups.flatMap (fun g => g ++ [[]]) = []
  · rw [nothing] at whole
    exact .inl (List.mem_singleton.mp whole)
  · rw [Text.lines_unlines nothing] at whole
    · exact values line whole
    · intro piece inside
      rcases values piece inside with rfl | value
      · simp
      · exact each piece value

/-- The edit of the block opens no class. -/
theorem isHeader_of_edit? {text : Text} {packageName : Option Text} {needs : List LibraryNeed}
    (known : needs ⊆ memberLibraries) {e : LineEdit}
    (edit : ((ofText text packageName).requireAll needs).edit? = some e) :
    ∀ line ∈ e.text.lines, Header.isHeader line = false := by
  have each : ∀ line ∈ ((ofText text packageName).requireAll needs).formatted.lines,
      Header.isHeader line = false := by
    intro line member
    rcases mem_lines_formatted (fun value listed => (blockLine_of_mem_values known listed).noFeed)
      member with
      rfl | value
    · exact isHeader_of_blank rfl
    · exact (blockLine_of_mem_values known value).noHeader
  rw [edit?] at edit
  split at edit
  · split at edit
    · cases edit
      exact each
    · cases edit
      intro line member
      rw [show "\n".toList = '\n' :: [] from rfl, Text.lines_append_feed] at member
      rcases List.mem_append.mp member with member | member
      · exact each line member
      · rw [List.mem_singleton.mp member]
        exact isHeader_of_blank rfl
  · cases edit

end Imports

end Dart

end ValueClass
