import ValueClass.Infer.Files
import ValueClass.Proofs.Dart.LibraryBlock
import ValueClass.Proofs.Infer.Names
import ValueClass.Proofs.Infer.Tidy

/-! # The imports of inferred files

A file imports the libraries that the members of its classes call and, when every class has
a file of its own, the files of other classes. Stems of files are plain, so no import of a
file is taken for one of a library, and formatting leaves the block as it was written.
-/

namespace ValueClass

namespace Name

/-! ## Stems -/

theorem isPlain_lowerChar {c : Char} (h : Text.isPlain c) : (lowerChar c).IsPlain := by
  have lowered : Text.isPlain c.toLower := Text.isPlain_of_table (by decide) h
  rw [lowerChar, if_pos (Text.toNat_of_isPlain h)]
  exact .cons lowered .nil

theorem isPlain_lower {t : Text} (h : t.IsPlain) : t.lower.IsPlain := by
  have after : ∀ before : Text, (Text.lowerAfter before t).IsPlain := by
    induction t with
    | nil => exact fun _ => .nil
    | cons c rest ih =>
        intro before
        have ascii : c.toNat < 0x80 := Text.toNat_of_isPlain (h c List.mem_cons_self)
        have noSigma : (c.toNat == 0x3A3) = false := by
          rw [beq_eq_false_iff_ne]
          omega
        rw [Text.lowerAfter, noSigma]
        exact (isPlain_lowerChar (h c List.mem_cons_self)).append (ih h.tail _)
  exact after []

theorem isPlain_breakHumps {t : Text} (h : t.IsPlain) : (breakHumps t).IsPlain := by
  fun_induction breakHumps t with
  | case1 => exact .nil
  | case2 c => exact h
  | case3 a b rest hump ih => exact .cons (h a List.mem_cons_self) (.cons (by decide) (ih h.tail))
  | case4 a b rest flat ih => exact .cons (h a List.mem_cons_self) (ih h.tail)

theorem isPlain_snake {name : Text} (h : name.IsPlain) : (snake name).IsPlain := by
  have dashes : Text.IsPlain (name.map fun c => if c == '-' then '_' else c) := by
    intro c member
    obtain ⟨d, inside, rfl⟩ := List.mem_map.mp member
    split
    · decide
    · exact h d inside
  have mark : Text.IsPlain ['_'] := by decide
  exact .join mark fun part inside => (isPlain_lower (isPlain_breakHumps dashes)).run inside

theorem isPlain_stem {name : Text} (h : name.IsPlain) (taken : List Text) :
    (stem name taken).IsPlain := by
  have plain : (plainStem name).IsPlain := by
    have generated : Text.IsPlain "generated".toList := by decide
    rw [plainStem]
    split
    · exact generated
    · exact isPlain_snake h
  have number : ∀ k, Text.IsPlain (Text.ofNat k) := by
    intro k c member
    have digit := Nat.isDigit_of_mem_toDigits (by decide) (by decide) member
    simp [Text.isPlain, Char.isAlphanum, digit]
  have mark : Text.IsPlain "_".toList := by decide
  simp only [stem]
  split
  · split
    · exact (plain.append mark).append (number _)
    · exact plain
  · exact plain

end Name

namespace Dart

/-- A line of the block that formatting leaves as it is. -/
structure IsImport (line : Text) : Prop where
  some : line ≠ []
  noFeed : '\n' ∉ line
  trimmed : line.trimEnd = line

theorem isImport_library {need : LibraryNeed} (known : need ∈ memberLibraries) :
    IsImport (importLine need.path) := by
  have entry := isEntry_library known
  exact ⟨entry.ne_nil, entry.noFeed, Text.trimEnd_of_trimmed entry.trimmed⟩

theorem colon_mem_library {need : LibraryNeed} (known : need ∈ memberLibraries) :
    ':' ∈ importLine need.path := by
  have each : ∀ need ∈ memberLibraries, ':' ∈ importLine need.path := by decide +kernel
  exact each need known

end Dart

open Dart

namespace PlannedFile

def IsFileImport (line : Text) : Prop :=
  ∃ stem : Text, stem.IsPlain ∧ line = importLine (stem ++ ending)

namespace IsFileImport

variable {line : Text}

theorem notMem (h : IsFileImport line) {c : Char}
    (other : Text.isPlain c = false ∧ c ≠ '.' ∧ c ≠ ' ' ∧ c ≠ '\'' ∧ c ≠ ';') : c ∉ line := by
  obtain ⟨stem, plain, rfl⟩ := h
  have path : c ∉ stem ++ ending := by
    rw [List.mem_append, not_or]
    refine ⟨plain.notMem other.1, ?_⟩
    intro member
    have ends : ∀ d ∈ ending, d = '.' ∨ Text.isPlain d := by decide
    rcases ends c member with dot | letter
    · exact other.2.1 dot
    · rw [other.1] at letter
      cases letter
  have opening : ∀ d ∈ "import '".toList, Text.isPlain d ∨ d = ' ' ∨ d = '\'' := by decide
  have closing : ∀ d ∈ "';".toList, d = '\'' ∨ d = ';' := by decide
  rw [importLine]
  split
  · exact path
  · intro member
    rcases List.mem_append.mp member with member | member
    · rcases List.mem_append.mp member with member | member
      · rcases opening c member with letter | blank | quote
        · rw [other.1] at letter
          cases letter
        · exact other.2.2.1 blank
        · exact other.2.2.2.1 quote
      · exact path member
    · rcases closing c member with quote | semicolon
      · exact other.2.2.2.1 quote
      · exact other.2.2.2.2 semicolon

theorem isImport (h : IsFileImport line) : IsImport line := by
  have noFeed : '\n' ∉ line := h.notMem (by decide)
  obtain ⟨stem, plain, rfl⟩ := h
  have last : ending = ".dar".toList ++ ['t'] := by decide
  have closing : "';".toList = ['\''] ++ [';'] := by decide
  have ends : ∃ front c, importLine (stem ++ ending) = front ++ [c] ∧ isBlank c = false := by
    rw [importLine]
    split
    · exact ⟨stem ++ ".dar".toList, 't', by rw [last, List.append_assoc], by decide⟩
    · exact ⟨"import '".toList ++ (stem ++ ending) ++ ['\''],
        ';', by rw [closing, List.append_assoc _ _ [';']], by decide⟩
  obtain ⟨front, c, same, solid⟩ := ends
  refine ⟨by rw [same]; simp, noFeed, ?_⟩
  rw [same]
  exact Text.trimEnd_concat solid front

end IsFileImport

variable {classes : List ClassDecl}

theorem isPlain_of_mem_assignStems (plain : ∀ c ∈ classes, c.name.IsPlain) {taken : List Text}
    {assigned : ClassDecl × Text} (member : assigned ∈ assignStems taken classes) :
    assigned.2.IsPlain := by
  induction classes generalizing taken with
  | nil => cases member
  | cons c rest ih =>
      rw [assignStems] at member
      rcases List.mem_cons.mp member with rfl | member
      · exact Name.isPlain_stem (plain c List.mem_cons_self) taken
      · exact ih (fun d inside => plain d (List.mem_cons_of_mem _ inside)) member

theorem map_fst_assignStems (taken : List Text) (classes : List ClassDecl) :
    (assignStems taken classes).map Prod.fst = classes := by
  induction classes generalizing taken with
  | nil => rfl
  | cons c rest ih =>
      rw [assignStems, List.map_cons, ih]

theorem mem_foldl_addNew {ts : List Text} {start : List Text} {t : Text}
    (h : t ∈ ts.foldl addNew start) :
    t ∈ start ∨ t ∈ ts := by
  induction ts generalizing start with
  | nil => exact .inl h
  | cons first rest ih =>
      rcases ih h with old | later
      · rw [addNew] at old
        split at old
        · exact .inl old
        · rcases List.mem_append.mp old with old | new
          · exact .inl old
          · exact .inr (List.mem_cons.mpr (.inl (List.mem_singleton.mp new)))
      · exact .inr (List.mem_cons_of_mem _ later)

theorem mem_of_stemOf? {assigned : List (ClassDecl × Text)} {name stem : Text}
    (h : stemOf? assigned name = some stem) : ∃ c, (c, stem) ∈ assigned := by
  rw [stemOf?] at h
  split at h
  · rename_i c _ found
    cases h
    have inside := List.mem_singleton_self (c, stem)
    rw [← found] at inside
    exact ⟨c, (List.mem_filter.mp inside).1⟩
  · cases h

theorem isFileImport_of_mem_plan (plain : ∀ c ∈ classes, c.name.IsPlain) {file : PlannedFile}
    (planned : file ∈ plan classes) {line : Text} (member : line ∈ file.imports) :
    IsFileImport line := by
  obtain ⟨⟨decl, stem⟩, -, rfl⟩ := List.mem_map.mp planned
  rcases mem_foldl_addNew member with none | member
  · cases none
  · obtain ⟨stem, listed, rfl⟩ := List.mem_map.mp member
    obtain ⟨f, -, found⟩ := List.mem_filterMap.mp listed
    dsimp only at found
    split at found
    · cases found
    · obtain ⟨c, inside⟩ := mem_of_stemOf? found
      exact ⟨stem, isPlain_of_mem_assignStems plain inside, rfl⟩

theorem map_decl_plan (classes : List ClassDecl) : (plan classes).map (·.decl) = classes := by
  rw [plan, List.map_map]
  exact map_fst_assignStems [] classes

end PlannedFile

namespace Dart

/-! ## Libraries of several classes -/

theorem neededBy_subset (s : Surroundings) (selector : Option MemberKind)
    (classes : List ClassDecl) :
    neededBy s selector classes ⊆ memberLibraries := by
  intro need member
  obtain ⟨c, -, asked⟩ := List.mem_flatMap.mp member
  exact needsFor_subset s selector c asked

theorem mem_libraryLines_neededBy {s : Surroundings} {selector : Option MemberKind}
    {classes : List ClassDecl} {line : Text} : line ∈ libraryLines (neededBy s selector classes) ↔
      ∃ c ∈ classes, line ∈ libraryLines (neededBy s selector [c]) := by
  have alone : ∀ c need, need ∈ neededBy s selector [c] ↔
      c.isValid ∧ need ∈ needsFor s selector c := by
    intro c need
    cases valid : c.isValid <;> simp [neededBy, valid]
  simp only [mem_libraryLines, alone]
  constructor
  · rintro ⟨need, asked, rfl⟩
    obtain ⟨c, listed, asked⟩ := List.mem_flatMap.mp asked
    obtain ⟨listed, valid⟩ := List.mem_filter.mp listed
    exact ⟨c, listed, need, ⟨valid, asked⟩, rfl⟩
  · rintro ⟨c, listed, need, ⟨valid, asked⟩, rfl⟩
    exact ⟨need, List.mem_flatMap.mpr ⟨c, List.mem_filter.mpr ⟨listed, valid⟩, asked⟩, rfl⟩

/-! ## The block -/

namespace Imports

variable {imports : Imports}

theorem framed_group {g : List Text} (some : g ≠ []) (lines : ∀ line ∈ g, line ≠ []) :
    Text.Framed g := by
  obtain ⟨first, rest, same⟩ := List.exists_cons_of_ne_nil some
  obtain ⟨front, last, split⟩ : ∃ front last, g = front ++ [last] := by
    rcases List.eq_nil_or_concat g with none | ⟨front, last, same⟩
    · exact absurd none some
    · exact ⟨front, last, by rw [same, List.concat_eq_append]⟩
  exact ⟨⟨first, rest, same, lines first (by simp [same])⟩,
    ⟨front, last, split, lines last (by simp [split])⟩⟩

theorem squeezeBlankLines_group {g : List Text} (lines : ∀ line ∈ g, line ≠ []) :
    Text.squeezeBlankLines false g = g := by
  induction g with
  | nil => rfl
  | cons line rest ih =>
      rw [Text.squeezeBlankLines_cons (lines line List.mem_cons_self),
        ih fun l member => lines l (List.mem_cons_of_mem _ member)]

theorem framed_spaced {groups : List (List Text)} (some : groups ≠ [])
    (nonempty : ∀ g ∈ groups, g ≠ []) (lines : ∀ g ∈ groups, ∀ line ∈ g, line ≠ []) :
    Text.Framed (spaced groups) ∧ Text.squeezeBlankLines false (spaced groups) = spaced groups := by
  fun_induction spaced groups with
  | case1 => exact absurd rfl some
  | case2 g =>
      exact ⟨framed_group (nonempty g List.mem_cons_self) (lines g List.mem_cons_self),
        squeezeBlankLines_group (lines g List.mem_cons_self)⟩
  | case3 g next rest ih =>
      have first := framed_group (nonempty g List.mem_cons_self) (lines g List.mem_cons_self)
      obtain ⟨framed, squeezed⟩ :=
        ih (by simp) (fun h member => nonempty h (List.mem_cons_of_mem _ member))
        fun h member => lines h (List.mem_cons_of_mem _ member)
      refine ⟨first.append framed [[]], ?_⟩
      have gap := Text.squeezeBlankLines_gap first framed
      rwa [squeezed, squeezeBlankLines_group (lines g List.mem_cons_self)] at gap

theorem tidy_formatted (lines : ∀ value ∈ imports.values, IsImport value)
    (some : imports.values ≠ []) :
    Text.Framed imports.formatted.trimmedLines ∧ Text.tidy imports.formatted = imports.formatted ++
      ['\n'] := by
  have grouped := imports.isGrouped_groups
  have whole : ∀ value ∈ imports.values, value ≠ [] ∧ '\n' ∉ value :=
    fun value member => ⟨(lines value member).some, (lines value member).noFeed⟩
  have trimmed : imports.formatted.trimmedLines = spaced imports.groups := by
    rw [Text.trimmedLines, lines_formatted_of_lines whole some]
    refine (List.map_congr_left fun line member => ?_).trans (List.map_id _)
    rcases mem_spaced member with rfl | member
    · rfl
    · exact (lines line ((grouped.mem_iff line).mp member)).trimmed
  obtain ⟨framed, squeezed⟩ :=
    framed_spaced (groups_ne_nil some) grouped.nonempty fun g listed line member =>
    (lines line ((grouped.mem_iff line).mp (List.mem_flatten.mpr ⟨g, listed, member⟩))).some
  rw [← trimmed] at framed
  refine ⟨framed, ?_⟩
  rw [Text.tidy_eq framed, trimmed, squeezed, ← formatted_eq_of_lines whole]

theorem foldl_push (imports : Imports) (given : List Text) :
    given.foldl push imports = { imports with values := imports.values ++ given } := by
  induction given generalizing imports with
  | nil => simp
  | cons line rest ih =>
      rw [List.foldl_cons, ih, push]
      simp

end Imports

end Dart

namespace Infer

variable {s : Surroundings} {packageName : Option Text} {given : List Text}
  {classes : List ClassDecl}

/-- The imports of a file: those it is given, and the libraries of its classes. -/
def importsFor (s : Surroundings) (packageName : Option Text) (given : List Text)
    (classes : List ClassDecl) :
    Imports :=
  (writeClasses s none (given.foldl Imports.push (Imports.ofText [] packageName))
    (classes.map fun decl => { decl })).1

def importBlock (imports : Imports) : List Text :=
  if imports.hasImports then [imports.formatted] else []

/-- The lines of a block that import something. -/
def importLines (block : List Text) : List Text :=
  (block.flatMap Text.lines).filter fun line => !line.isEmpty

theorem mem_values_importsFor (files : ∀ line ∈ given, PlannedFile.IsFileImport line)
    {line : Text} :
    line ∈ (importsFor s packageName given classes).values ↔
      line ∈ given ∨ line ∈ libraryLines (neededBy s none classes) := by
  have empty : Imports.ofText [] packageName = { packageName } := by
    rw [Imports.ofText, Text.lines_nil, Imports.readFrom, if_neg (by decide), if_pos (by decide),
      Imports.readFrom]
  have plain : (given.foldl Imports.push (Imports.ofText [] packageName)).hasAny
      flutterUmbrellas = false := by
    rw [Imports.hasAny_eq_false, Imports.foldl_push, empty]
    intro path umbrella
    have colon : ∀ path ∈ flutterUmbrellas, ':' ∈ importLine path := by decide +kernel
    have inside := colon path umbrella
    refine ⟨fun found => ?_, fun listed => ?_⟩
    · rw [List.eq_nil_of_infix_nil found] at inside
      cases inside
    · exact (files _ listed).notMem (by decide) inside
  rw [importsFor, writeClasses_eq_map,
    Imports.mem_values_requireAll_iff (neededBy_subset s none classes) plain, Imports.foldl_push,
    empty]
  rfl

theorem isImport_of_mem_values (files : ∀ line ∈ given, PlannedFile.IsFileImport line) {line : Text}
    (member : line ∈ (importsFor s packageName given classes).values) : IsImport line := by
  rcases (mem_values_importsFor files).mp member with file | library
  · exact (files line file).isImport
  · obtain ⟨need, asked, rfl⟩ := mem_libraryLines.mp library
    exact isImport_library (neededBy_subset s none classes asked)

theorem mem_importLines_iff {imports : Imports} (lines : ∀ value ∈ imports.values, IsImport value)
    {line : Text} :
    line ∈ importLines (importBlock imports) ↔ line ∈ imports.values := by
  by_cases none : imports.values = []
  · simp [importBlock, Imports.hasImports, importLines, none]
  · have whole : ∀ value ∈ imports.values, value ≠ [] ∧ '\n' ∉ value :=
      fun value member => ⟨(lines value member).some, (lines value member).noFeed⟩
    have block : importLines (importBlock imports) = imports.groups.flatten.filter fun line =>
        !line.isEmpty := by
      rw [importBlock, if_pos (by simpa [Imports.hasImports] using none), importLines,
        List.flatMap_singleton, Imports.lines_formatted_of_lines whole none]
      exact filter_spaced rfl
    rw [block, List.mem_filter, imports.isGrouped_groups.mem_iff]
    exact and_iff_left_of_imp fun member => by simpa using (lines line member).some

end Infer

end ValueClass
