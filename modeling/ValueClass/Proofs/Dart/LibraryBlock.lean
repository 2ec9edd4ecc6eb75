import ValueClass.Proofs.Dart.ImportRewrite

/-! # The block of the libraries that members call

Where a buffer has no directives of its own, its block holds the libraries that members
call and nothing else. Such a block is read back as it was written. Asking for libraries
that are there changes nothing, and asking for others gives the block of all of them.
-/

namespace ValueClass

namespace Text

/-- What stands in a text and holds no line feed stands in one of its lines. -/
theorem exists_line_of_infix {t part : Text} (inside : part <:+: t) (noFeed : '\n' ∉ part) :
    ∃ line ∈ t.lines, part <:+: line := by
  have front : ∀ {word : Text}, '\n' ∉ word → ∀ b : Text, ∃ first more, b.lines = first :: more ∧
      (word ++ b).lines = (word ++ first) :: more := by
    intro word whole b
    induction word with
    | nil =>
        obtain ⟨first, more, lines⟩ := List.exists_cons_of_ne_nil (lines_ne_nil b)
        exact ⟨first, more, lines, lines⟩
    | cons c rest ih =>
        rw [List.mem_cons, not_or] at whole
        obtain ⟨first, more, lines, joined⟩ := ih whole.2
        refine ⟨first, more, lines, ?_⟩
        rw [List.cons_append, lines_cons (Ne.symm whole.1), joined]
        rfl
  obtain ⟨a, b, rfl⟩ := inside
  rw [List.append_assoc]
  induction a with
  | nil =>
      obtain ⟨first, more, -, joined⟩ := front noFeed b
      exact ⟨part ++ first, by simp [joined], (List.prefix_append _ _).isInfix⟩
  | cons c rest ih =>
      obtain ⟨line, member, inside⟩ := ih
      by_cases feed : c = '\n'
      · subst feed
        refine ⟨line, ?_, inside⟩
        rw [List.cons_append, lines_cons_feed]
        exact List.mem_cons_of_mem _ member
      · rw [List.cons_append, lines_cons feed]
        obtain ⟨first, more, lines⟩ := List.exists_cons_of_ne_nil
            (lines_ne_nil (rest ++ (part ++ b)))
        rw [lines] at member ⊢
        rcases List.mem_cons.mp member with rfl | member
        · exact ⟨c :: line, by simp [consFirst], inside.trans (List.suffix_cons _ _).isInfix⟩
        · exact ⟨line, List.mem_cons_of_mem _ member, inside⟩

end Text

namespace Dart

def libraryLines (libs : List LibraryNeed) : List Text :=
  libs.map fun need => importLine need.path

section Libraries

variable {need : LibraryNeed}

theorem isEntry_library (known : need ∈ memberLibraries) : IsEntry (importLine need.path) := by
  obtain ⟨directive, trimmed, noFeed⟩ := importLine_library known
  exact ⟨directive, trimmed, noFeed⟩

theorem umbrella_not_infix (known : need ∈ memberLibraries) {path : Text}
    (umbrella : path ∈ flutterUmbrellas) :
    ¬ importLine path <:+: importLine need.path := by
  have each : ∀ need ∈ memberLibraries, ∀ path ∈ flutterUmbrellas,
      (importLine need.path).has (importLine path) = false := by decide +kernel
  rw [← Text.has_iff_infix, each need known path umbrella]
  simp

theorem umbrellas_subset (known : need ∈ memberLibraries) : need.umbrellas ⊆ flutterUmbrellas := by
  simp only [memberLibraries, List.mem_cons, List.not_mem_nil, or_false] at known
  rcases known with rfl | rfl | rfl | rfl | rfl
  · exact List.nil_subset _
  · exact List.nil_subset _
  · exact List.Subset.refl _
  · exact List.nil_subset _
  · exact List.Subset.refl _

theorem mem_libraryLines {libs : List LibraryNeed} {line : Text} :
    line ∈ libraryLines libs ↔ ∃ need ∈ libs, line = importLine need.path := by
  simp only [libraryLines, List.mem_map, eq_comm]

end Libraries

namespace Imports

def ofLibraries (packageName : Option Text) (libs : List LibraryNeed) : Imports :=
  { packageName, values := libraryLines libs }

/-- The lines above the classes: the block of some libraries with an empty line below it, and
    blank lines. -/
def topLines (packageName : Option Text) (libs : List LibraryNeed) (gap : List Text) : List Text :=
  if libs.isEmpty then gap else (ofLibraries packageName libs).formatted.lines ++ [] :: gap

section Top

variable {packageName : Option Text} {libs needs : List LibraryNeed}
  {gap rest : List Text} {text : Text}

theorem topLines_congr {others : List LibraryNeed}
    (same : ∀ line, line ∈ libraryLines libs ↔ line ∈ libraryLines others) :
    topLines packageName libs gap = topLines packageName others gap := by
  have empty : libs.isEmpty = others.isEmpty := by
    cases libs with
    | nil =>
        cases others with
        | nil => rfl
        | cons need more =>
            exact absurd ((same _).mpr (List.mem_cons_self ..)) (by simp [libraryLines])
    | cons need more =>
        cases others with
        | nil => exact absurd ((same _).mp (List.mem_cons_self ..)) (by simp [libraryLines])
        | cons _ _ => rfl
  have block : (ofLibraries packageName libs).formatted =
      (ofLibraries packageName others).formatted :=
    formatted_congr rfl same
  rw [topLines, topLines, empty, block]

theorem isEntry_ofLibraries (known : libs ⊆ memberLibraries) :
    ∀ value ∈ (ofLibraries packageName libs).values, IsEntry value := by
  intro value member
  obtain ⟨need, inside, rfl⟩ := mem_libraryLines.mp member
  exact isEntry_library (known inside)

theorem lines_ofLibraries (known : libs ⊆ memberLibraries) (some : libs ≠ []) :
    (ofLibraries packageName libs).formatted.lines = spaced
    (ofLibraries packageName libs).groups := by
  refine lines_formatted (isEntry_ofLibraries known) ?_
  simpa [ofLibraries, libraryLines] using some

/-! ## Reading -/

theorem readFrom_gap {imports : Imports} {seen : Bool} {lineNo : Nat}
    (blank : ∀ line ∈ gap, line.trim = []) :
    imports.readFrom seen lineNo (gap ++ rest) = imports.readFrom seen
      (lineNo + gap.length) rest := by
  induction gap generalizing lineNo with
  | nil => rfl
  | cons line more ih =>
      rw [List.cons_append, readFrom_blank (blank line (by simp)),
        ih fun l member => blank l (List.mem_cons_of_mem _ member), List.length_cons, Nat.add_assoc,
        Nat.add_comm 1]

/-- Reading ends at the first class. -/
theorem readFrom_classes {imports : Imports} {seen : Bool} {lineNo : Nat}
    (opens : ∀ line more, rest = line :: more → Header.isHeader line) :
    imports.readFrom seen lineNo rest = imports := by
  cases rest with
  | nil => rw [readFrom]
  | cons line more =>
      have header := opens line more rfl
      have plain : isDirective line = false := by
        by_contra directive
        rw [isHeader_of_directive (by simpa using directive)] at header
        cases header
      have solid : line.trim ≠ [] := by
        intro blank
        rw [isHeader_of_blank blank] at header
        cases header
      refine readFrom_halts plain solid fun _ => ?_
      rw [Bool.eq_false_iff]
      intro lead
      simp only [isLead, Bool.and_eq_true, Bool.or_eq_true, decide_eq_true_eq] at lead
      rcases lead.2 with comment | library
      · rw [isHeader_of_comment comment] at header
        cases header
      · rw [isHeader_of_library library.1] at header
        cases header

/-- Reading goes on behind lines that end with a directive, and knows where they end. -/
theorem readFrom_block {imports : Imports} {seen : Bool} {lineNo first last : Nat}
    {body : List Text} (directives : IsBody body)
    (ends : ∀ line, body.getLast? = some line → isDirective line)
    (known : imports.block = some (first, last)) :
    imports.readFrom seen lineNo (body ++ rest) = readFrom { imports with
      values := imports.values ++ (body.filter isDirective).map Text.trim
      written := imports.written ++ body.filter isDirective
      block := some (first, if body = [] then last else lineNo + body.length - 1) }
      seen (lineNo + body.length) rest := by
  induction body generalizing imports lineNo last with
  | nil => simp [← known]
  | cons line more ih =>
      have others : IsBody more := fun l member => directives l (List.mem_cons_of_mem _ member)
      have below : ∀ l, more.getLast? = some l → isDirective l := by
        intro l here
        refine ends l ?_
        rw [List.getLast?_cons, here]
        rfl
      have count : lineNo + 1 + more.length = lineNo + (more.length + 1) := by omega
      by_cases directive : isDirective line
      · have block : (imports.readDirective lineNo line).block = some (first, lineNo) := by
          simp [readDirective, known]
        rw [List.cons_append, readFrom_directive directive, ih others below block, lastLine_body,
          count, List.filter_cons_of_pos directive]
        simp [readDirective]
      · have blank : line.trim = [] := (directives line (by simp)).resolve_left directive
        have some : more ≠ [] := by
          rintro rfl
          exact directive (ends line rfl)
        rw [List.cons_append, readFrom_blank blank, ih others below known, if_neg some,
          if_neg (by simp), count, List.filter_cons_of_neg directive, List.length_cons]

theorem head_spaced {groups : List (List Text)} (nonempty : ∀ g ∈ groups, g ≠ []) {line : Text}
    {more : List Text} (lines : spaced groups = line :: more) : line ∈ groups.flatten := by
  have first : ∀ (g : List Text) (behind : List Text), g ≠ [] → g ++ behind = line :: more →
      line ∈ g := by
    intro g behind some same
    cases g with
    | nil => exact absurd rfl some
    | cons l others =>
        cases same
        exact List.mem_cons_self ..
  fun_cases spaced groups with
  | case1 => cases lines
  | case2 g => simpa using first g [] (nonempty g (by simp)) (by simpa [spaced] using lines)
  | case3 g next rest =>
      rw [List.flatten_cons]
      exact List.mem_append_left _ (first g _ (nonempty g (by simp)) lines)

/-- A block is read as it is written: the directives of its groups, up to its last line. -/
theorem readFrom_spaced {groups : List (List Text)} (nonempty : ∀ g ∈ groups, g ≠ [])
    (entries : ∀ line ∈ groups.flatten, IsEntry line) (present : spaced groups ≠ []) :
    readFrom { source := text, packageName } false 0 (spaced groups ++ rest) =
      readFrom { source := text, packageName, values := groups.flatten, written := groups.flatten
                 block := some (0, (spaced groups).length - 1) } false
                   (spaced groups).length rest := by
  have found := filter_isDirective_spaced entries
  obtain ⟨line, more, lines⟩ := List.exists_cons_of_ne_nil present
  have starts : isDirective line := (entries line (head_spaced nonempty lines)).directive
  have directives : IsBody more := (List.forall_mem_cons.mp (lines ▸ isBody_spaced entries)).2
  have ends : ∀ l, more.getLast? = some l → isDirective l := by
    intro l last
    refine (entries l (List.mem_of_getLast? ?_)).directive
    rw [← getLast?_spaced nonempty, lines, List.getLast?_cons, last]
    rfl
  have first : (readDirective { source := text, packageName } 0 line).block = some (0, 0) := rfl
  rw [lines, List.filter_cons_of_pos starts] at found
  have values : line.trim :: (more.filter isDirective).map Text.trim = groups.flatten := by
    rw [← List.map_cons, found, map_trim_entries entries]
  rw [lines, List.cons_append, readFrom_directive starts, readFrom_block directives ends first,
    lastLine_body, List.length_cons]
  simp [readDirective, values, found, Nat.add_comm 1]

/-- What is read above the classes. -/
theorem ofText_topLines (known : libs ⊆ memberLibraries) (blank : ∀ line ∈ gap, line.trim = [])
    (opens : ∀ line more, rest = line :: more → Header.isHeader line)
    (split : text.lines = topLines packageName libs gap ++ rest) :
    ofText text packageName =
      { source := text, packageName
        values := (ofLibraries packageName libs).groups.flatten
        written := (ofLibraries packageName libs).groups.flatten
        block := if libs.isEmpty then none
          else some (0, (ofLibraries packageName libs).formatted.lines.length - 1) } := by
  have grouped := (ofLibraries packageName libs).isGrouped_groups
  rw [ofText, split]
  by_cases none : libs = []
  · subst none
    show readFrom _ false 0 (gap ++ rest) = _
    rw [readFrom_gap blank, readFrom_classes opens]
    rfl
  · have entries := isEntry_groups (@isEntry_ofLibraries packageName libs known)
    have block := @lines_ofLibraries packageName libs known none
    have present : spaced (ofLibraries packageName libs).groups ≠ [] := block ▸ Text.lines_ne_nil _
    have empty : libs.isEmpty = false := by simpa using none
    rw [topLines, empty, block, if_neg (by simp), if_neg (by simp), List.append_assoc,
      readFrom_spaced grouped.nonempty entries present, List.cons_append, readFrom_blank rfl,
      readFrom_gap blank, readFrom_classes opens]

/-! ## Asking for libraries -/

theorem exists_requireAll (imports : Imports) (needs : List LibraryNeed) :
    ∃ added, imports.requireAll needs = { imports with values := imports.values ++ added } := by
  induction needs generalizing imports with
  | nil => exact ⟨[], by simp [requireAll]⟩
  | cons need rest ih =>
      obtain ⟨added, same⟩ := ih (imports.require need.path need.umbrellas)
      refine ⟨(if imports.lacks need.path need.umbrellas then [importLine need.path]
        else []) ++ added, ?_⟩
      rw [requireAll, List.foldl_cons, ← requireAll, same, require_eq, List.append_assoc]

theorem requireAll_of_included {imports : Imports} (there : libraryLines needs ⊆ imports.values) :
    imports.requireAll needs = imports := by
  induction needs with
  | nil => rfl
  | cons need rest ih =>
      have included : imports.includes (importLine need.path) :=
        List.contains_iff_mem.mpr (there (by simp [libraryLines]))
      have same : imports.require need.path need.umbrellas = imports := by
        rw [require, lacks, included]
        rfl
      rw [requireAll, List.foldl_cons, same]
      exact ih fun line member => there (List.mem_cons_of_mem _ member)

theorem hasAny_eq_false {imports : Imports} {paths : List Text} : imports.hasAny paths = false ↔
    ∀ path ∈ paths, ¬ importLine path <:+: imports.source ∧ importLine path ∉ imports.values := by
  simp only [hasAny, List.any_eq_false, Bool.or_eq_true, not_or, Text.has_iff_infix, includes,
    List.contains_iff_mem]

theorem hasAny_require {imports : Imports} {need : LibraryNeed} (known : need ∈ memberLibraries)
    (plain : imports.hasAny flutterUmbrellas = false) :
    (imports.require need.path need.umbrellas).hasAny flutterUmbrellas = false := by
  rw [require_eq, hasAny_eq_false]
  intro path umbrella
  obtain ⟨source, values⟩ := hasAny_eq_false.mp plain path umbrella
  refine ⟨source, ?_⟩
  rw [List.mem_append, not_or]
  refine ⟨values, ?_⟩
  split
  · rw [List.mem_singleton]
    intro same
    exact umbrella_not_infix known umbrella (same ▸ List.infix_rfl)
  · simp

/-- Where no library hands on others, exactly those that are asked for are added. -/
theorem mem_values_requireAll_iff {imports : Imports} (known : needs ⊆ memberLibraries)
    (plain : imports.hasAny flutterUmbrellas = false) {line : Text} :
    line ∈ (imports.requireAll needs).values ↔ line ∈ imports.values ∨
      line ∈ libraryLines needs := by
  induction needs generalizing imports with
  | nil => simp [requireAll, libraryLines]
  | cons need rest ih =>
      obtain ⟨first, others⟩ := List.cons_subset.mp known
      have umbrellas : imports.hasAny need.umbrellas = false := by
        rw [hasAny_eq_false] at plain ⊢
        exact fun path member => plain path (umbrellas_subset first member)
      have one : line ∈ (imports.require need.path need.umbrellas).values ↔
          line ∈ imports.values ∨ line = importLine need.path := by
        rw [require_eq, List.mem_append, lacks, umbrellas, Bool.or_false]
        by_cases included : imports.includes (importLine need.path)
        · have there : importLine need.path ∈ imports.values := List.contains_iff_mem.mp included
          rw [included]
          simp only [Bool.not_true, Bool.false_eq_true, ↓reduceIte, List.not_mem_nil, or_false]
          constructor
          · exact .inl
          · rintro (member | rfl)
            · exact member
            · exact there
        · simp [included]
      rw [requireAll, List.foldl_cons, ← requireAll, ih others (hasAny_require first plain), one,
        or_assoc]
      simp [libraryLines]

/-! ## The edit of the block -/

/-- What stands above the classes hands on no other libraries. -/
theorem hasAny_ofText (known : libs ⊆ memberLibraries) (blank : ∀ line ∈ gap, line.trim = [])
    (opens : ∀ line more, rest = line :: more → Header.isHeader line)
    (noSlash : ∀ line ∈ rest, '/' ∉ line)
    (split : text.lines = topLines packageName libs gap ++ rest) :
    (ofText text packageName).hasAny flutterUmbrellas = false := by
  have grouped := (ofLibraries packageName libs).isGrouped_groups
  have slashes : ∀ path ∈ flutterUmbrellas, '/' ∈ importLine path ∧ '\n' ∉ importLine path := by
    decide +kernel
  rw [ofText_topLines known blank opens split, hasAny_eq_false]
  intro path umbrella
  have listed : ∀ line ∈ (ofLibraries packageName libs).groups.flatten,
      ¬ importLine path <:+: line := by
    intro line member
    obtain ⟨need, inside, rfl⟩ := mem_libraryLines.mp ((grouped.mem_iff line).mp member)
    exact umbrella_not_infix (known inside) umbrella
  refine ⟨?_, fun member => listed _ member List.infix_rfl⟩
  intro inside
  obtain ⟨line, member, inside⟩ := Text.exists_line_of_infix inside (slashes path umbrella).2
  have slash : '/' ∈ line := inside.subset (slashes path umbrella).1
  have bare : ∀ l : Text, l.trim = [] → '/' ∉ l := by
    intro l blank here
    have ink : '/' ∈ l.ink := List.mem_filter.mpr ⟨here, by decide⟩
    rw [← Text.ink_trim, blank] at ink
    cases ink
  rw [split] at member
  rcases List.mem_append.mp member with member | member
  · rw [topLines] at member
    split at member
    · exact bare line (blank line member) slash
    · rename_i some
      rw [lines_ofLibraries known (by simpa using some)] at member
      rcases List.mem_append.mp member with member | member
      · rcases mem_spaced member with rfl | member
        · cases slash
        · exact listed line member inside
      · rcases List.mem_cons.mp member with rfl | member
        · cases slash
        · exact bare line (blank line member) slash
  · exact noSlash line member slash

/-- Nothing is rewritten where all libraries are there. -/
theorem edit?_topLines (known : libs ⊆ memberLibraries) (blank : ∀ line ∈ gap, line.trim = [])
    (opens : ∀ line more, rest = line :: more → Header.isHeader line)
    (split : text.lines = topLines packageName libs gap ++ rest)
    (there : libraryLines needs ⊆ libraryLines libs) :
    ((ofText text packageName).requireAll needs).edit? = none := by
  have grouped := (ofLibraries packageName libs).isGrouped_groups
  have read := ofText_topLines known blank opens split
  have values : (ofText text packageName).values =
      (ofLibraries packageName libs).groups.flatten := by rw [read]
  have included : libraryLines needs ⊆ (ofText text packageName).values := by
    intro line member
    rw [values]
    exact (grouped.mem_iff line).mpr (there member)
  have formatted : (ofText text packageName).formatted =
      (ofLibraries packageName libs).formatted := by
    refine formatted_congr (by rw [read]; rfl) fun line => ?_
    rw [values]
    exact grouped.mem_iff line
  have unchanged : (ofText text packageName).changed = false := by
    rw [changed, formatted, formatted_eq (isEntry_ofLibraries known), raw, read, Text.sameInk,
      Text.ink_unlines, Text.ink_unlines, flatMap_ink_spaced, beq_self_eq_true]
    rfl
  rw [requireAll_of_included included, edit?, unchanged]
  rfl

/-- The block is rewritten as soon as a library is added. -/
theorem mem_of_unchanged (known : libs ⊆ memberLibraries) (asked : needs ⊆ memberLibraries)
    (same : Text.sameInk (Text.unlines (ofLibraries packageName libs).groups.flatten)
      (ofLibraries packageName (libs ++ needs)).formatted) {line : Text} :
    line ∈ libraryLines (libs ++ needs) ↔ line ∈ libraryLines libs := by
  have all : libs ++ needs ⊆ memberLibraries := List.append_subset.mpr ⟨known, asked⟩
  have before := (ofLibraries packageName libs).isGrouped_groups
  have after := (ofLibraries packageName (libs ++ needs)).isGrouped_groups
  have subset : (ofLibraries packageName libs).groups.flatten ⊆
      (ofLibraries packageName (libs ++ needs)).groups.flatten := by
    intro l member
    refine (after.mem_iff l).mpr ?_
    have old : l ∈ libraryLines libs := (before.mem_iff l).mp member
    simp only [ofLibraries, libraryLines, List.map_append, List.mem_append] at old ⊢
    exact .inl old
  have entries : ∀ l ∈ (ofLibraries packageName (libs ++ needs)).groups.flatten, IsEntry l :=
    fun l member =>
    isEntry_ofLibraries all l ((after.mem_iff l).mp member)
  rw [formatted_eq (isEntry_ofLibraries all), Text.sameInk, Text.ink_unlines, Text.ink_unlines,
    flatMap_ink_spaced, beq_iff_eq] at same
  have back := subset_of_same_ink before.nodup subset entries same
  have both : line ∈ (ofLibraries packageName (libs ++ needs)).groups.flatten ↔
      line ∈ (ofLibraries packageName libs).groups.flatten :=
        ⟨fun member => back member, fun member => subset member⟩
  exact (after.mem_iff line).symm.trans (both.trans (before.mem_iff line))

/-- The edit puts a block in the place of the old one, or above the blank lines where there
    was none. -/
theorem applied_topLines {imports : Imports} (changed : imports.changed)
    (present : (libs ++ needs).isEmpty = false)
    (formatted : imports.formatted = (ofLibraries packageName (libs ++ needs)).formatted)
    (block : imports.block = if libs.isEmpty then none
      else some (0, (ofLibraries packageName libs).formatted.lines.length - 1))
    (insertLine : imports.insertLine = 0) (below : List Text) :
    imports.edit?.toList.foldl (fun ls e => e.applyTo ls) (topLines packageName libs gap ++ below) =
      topLines packageName (libs ++ needs) gap ++ below := by
  rw [edit?, changed, block, formatted, insertLine, topLines, topLines, present]
  cases libs with
  | nil =>
      have applied := @LineEdit.applyTo_part
        { start := 0, stop := 0, text := (ofLibraries packageName ([] ++ needs)).formatted ++ "\n" }
          [] [] (gap ++ below)
        rfl rfl
      rw [show "\n".toList = '\n' :: [] from rfl, Text.lines_append_feed, Text.lines_nil] at applied
      simpa using applied
  | cons need more =>
      set old := (ofLibraries packageName (need :: more)).formatted.lines
      have size : 0 < old.length := List.length_pos_iff.mpr (Text.lines_ne_nil _)
      have applied := @LineEdit.applyTo_part
        { start := 0, stop := ((old.length - 1 : Nat) : Int) + 1
          text := (ofLibraries packageName (need :: more ++ needs)).formatted } [] old
            ([] :: gap ++ below)
        rfl (by simp only [List.length_nil]; omega)
      simpa using applied

/-- The edit of the block gives the block of all libraries. -/
theorem edited_topLines (known : libs ⊆ memberLibraries) (asked : needs ⊆ memberLibraries)
    (blank : ∀ line ∈ gap, line.trim = [])
    (opens : ∀ line more, rest = line :: more → Header.isHeader line)
    (noSlash : ∀ line ∈ rest, '/' ∉ line)
    (split : text.lines = topLines packageName libs gap ++ rest) (below : List Text) :
    ((ofText text packageName).requireAll needs).edit?.toList.foldl (fun ls e => e.applyTo ls)
      (topLines packageName libs gap ++ below) = topLines packageName
        (libs ++ needs) gap ++ below := by
  have grouped := (ofLibraries packageName libs).isGrouped_groups
  have read := ofText_topLines known blank opens split
  have plain := hasAny_ofText known blank opens noSlash split
  obtain ⟨added, same⟩ := exists_requireAll (ofText text packageName) needs
  set imports := (ofText text packageName).requireAll needs with pending
  have values : ∀ line, line ∈ imports.values ↔ line ∈ libraryLines (libs ++ needs) := by
    intro line
    have old : line ∈ (ofText text packageName).values ↔ line ∈ libraryLines libs := by
      rw [read]
      exact grouped.mem_iff line
    rw [pending, mem_values_requireAll_iff asked plain, old, libraryLines, libraryLines,
      libraryLines, List.map_append, List.mem_append]
  have formatted : imports.formatted = (ofLibraries packageName (libs ++ needs)).formatted :=
    formatted_congr (by rw [same, read]; rfl) values
  have written : imports.written = (ofLibraries packageName libs).groups.flatten := by
    rw [same, read]
  have block : imports.block = if libs.isEmpty then none
      else some (0, (ofLibraries packageName libs).formatted.lines.length - 1) := by rw [same, read]
  have insertLine : imports.insertLine = 0 := by rw [same, read]
  cases changed : imports.changed with
  | false =>
      have ink : Text.sameInk (Text.unlines (ofLibraries packageName libs).groups.flatten)
          (ofLibraries packageName (libs ++ needs)).formatted := by
        rwa [Imports.changed, raw, written, formatted, Bool.not_eq_false'] at changed
      rw [edit?, changed]
      exact congrArg (· ++ below)
        (topLines_congr fun line => (mem_of_unchanged known asked ink).symm)
  | true =>
      have some : (libs ++ needs).isEmpty = false := by
        rw [List.isEmpty_eq_false_iff]
        intro empty
        have nothing : imports.edit? = none := by
          refine edit?_topLines known blank opens split ?_
          rw [(List.append_eq_nil_iff.mp empty).2]
          exact List.nil_subset _
        rw [edit?, changed, if_pos rfl] at nothing
        split at nothing <;> cases nothing
      exact applied_topLines changed some formatted block insertLine below

end Top

end Imports

end Dart

end ValueClass
