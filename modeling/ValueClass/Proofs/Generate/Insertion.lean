import ValueClass.Proofs.Dart.Comment
import ValueClass.Proofs.Generate.Statement

/-! # The place for a new import block

A buffer without directives gets its block behind the last of the lines that look like
comments, one by one, and the library line. Whether such a line is one of a comment that goes
on, or the documentation of what is below it, is not looked at; so the place is clear just
when the first other line is not one of a comment, and does not stand right below
documentation.
-/

namespace ValueClass

namespace Dart

/-- A line that reading ends at, once the library line was seen or not. -/
structure Stops (seenLibrary : Bool) (line : Text) : Prop where
  solid : line.trim ≠ []
  plain : isDirective line = false
  noLead : isLead seenLibrary line = false

theorem Leads.isHeader {seen after : Bool} {above : List Text} (leads : Leads seen above after) :
    ∀ line ∈ above, Header.isHeader line = false := by
  induction leads with
  | nil => simp
  | blank blank below ih => exact List.forall_mem_cons.mpr ⟨isHeader_of_blank blank, ih⟩
  | lead lead below ih =>
      refine List.forall_mem_cons.mpr ⟨?_, ih⟩
      simp only [isLead, Bool.and_eq_true, Bool.or_eq_true, decide_eq_true_eq] at lead
      rcases lead.2 with comment | library
      · exact isHeader_of_comment comment
      · exact isHeader_of_library library.1

namespace Imports

/-- Where reading finds no directive, it leaves the place for a block behind the last line
    that it passes and that is not blank. -/
theorem ofText_of_none {text : Text} {packageName : Option Text}
    (none : (ofText text packageName).block = none) :
    ∃ above gap rest seen, text.lines = above ++ (gap ++ rest) ∧
      (ofText text packageName).insertLine = above.length ∧
      Leads false above seen ∧ (∀ line ∈ gap, line.trim = []) ∧ ∀ stop below, rest = stop :: below →
        Stops seen stop := by
  obtain ⟨above, gap, rest, seen, split, leads, blanks, read, ends⟩ :=
    @exists_leads { source := text, packageName } false 0 text.lines rfl
  have place : (if above = [] then 0 else 0 + above.length) = above.length := by
    split
    · rename_i empty
      rw [empty]
      rfl
    · rw [Nat.zero_add]
  dsimp only at read
  rw [place, ← ofText] at read
  cases rest with
  | nil =>
      rw [readFrom] at read
      exact ⟨above, gap, [], seen, split, by rw [read], leads, blanks, by simp⟩
  | cons stop below =>
      obtain ⟨solid, noLead⟩ := ends stop below rfl
      have plain : isDirective stop = false := by
        by_contra directive
        rw [readFrom_directive (by simpa using directive)] at read
        obtain ⟨body, -, -, -, -, -, -, known⟩ :=
          @exists_body (readDirective { source := text, packageName, insertLine := above.length }
            (0 + (above ++ gap).length) stop) seen (0 + (above ++ gap).length + 1) below
            (by simp [readDirective]) _ _ rfl
        rw [read, known] at none
        cases none
      rw [readFrom_halts plain solid fun _ => noLead] at read
      refine ⟨above, gap, stop :: below, seen, split, by rw [read], leads, blanks, ?_⟩
      rintro line more ⟨⟩
      exact ⟨solid, plain, noLead⟩

/-- A block can go in behind lines that are followed by blank ones just when the reader is not
    in a comment at the first line that is not blank, and that line does not follow
    documentation. -/
theorem isClear_iff {above gap below : List Text} {stop : Text}
    (blanks : ∀ line ∈ gap, line.trim = []) (solid : stop.trim ≠ []) :
    IsClear above (gap ++ stop :: below) ↔
      (Place.behind (above ++ gap)).isComment = false ∧ ¬ (gap = [] ∧ endsInDoc above) := by
  have same : Place.behind (above ++ gap) = Place.behind above :=
    Place.behind_append_of_blank above fun line member =>
      Text.isBlankText_of_trim (blanks line member)
  rw [same]
  constructor
  · rintro ⟨closed, apart⟩
    refine ⟨closed, ?_⟩
    rintro ⟨rfl, doc⟩
    exact solid (apart doc stop rfl)
  · rintro ⟨closed, other⟩
    refine ⟨closed, fun doc declaration first => ?_⟩
    cases gap with
    | nil => exact absurd ⟨rfl, doc⟩ other
    | cons line rest =>
        obtain rfl : line = declaration := Option.some.inj first
        exact blanks line (by simp)

end Imports

end Dart

/-! ## The whole run -/

namespace Request

open Dart

variable {request : Request} {text : Text} {before after : Interview}

/-- Where a run puts the first block of a buffer: behind lines that are passed and above blank
    lines and the line that reading stops at. -/
theorem generate_insertion {g : Generated}
    (returned : (request.generate text).Returns before g after) :
    ∃ imports drafts, (request.reviewed text).Returns before (imports, drafts) after ∧
      (imports.block = none → ∀ e, imports.edit? = some e →
        ∃ above gap stop below seen, text.lines = above ++ (gap ++ stop :: below) ∧
          Leads false above seen ∧
          (∀ line ∈ gap, line.trim = []) ∧ Stops seen stop ∧
          e = { start := above.length, stop := above.length, text := imports.formatted ++ "\n" } ∧
          above ++ (imports.formatted.lines ++ [[]]) <+: g.code.lines ∧
          (IsClear above (gap ++ stop :: below) ↔
            (Place.behind (above ++ gap)).isComment = false ∧ ¬ (gap = [] ∧ endsInDoc above))) := by
  obtain ⟨imports, drafts, left, rfl⟩ := generate_returns.mp returned
  refine ⟨imports, drafts, left, ?_⟩
  intro none e edit
  obtain ⟨added, same, -⟩ := (asked_of_reviewed left).values
  have block : (Imports.ofText text request.project.packageName).block = Option.none := by
    rw [same] at none; exact none
  have insertLine : imports.insertLine =
      (Imports.ofText text request.project.packageName).insertLine := by rw [same]
  obtain ⟨above, gap, rest, seen, split, place, leads, blanks, stops⟩ :=
    Imports.ofText_of_none block
  have inserted := Imports.edit?_of_none edit none
  rw [insertLine, place] at inserted
  have higher : ∀ c ∈ scan text, above.length < c.firstLine := by
    intro c member
    have low := (Imports.ofText_above_class request.project.packageName member).insertLine
    have bound := (standsIn_of_mem_scan member).bound
    omega
  -- there is a class, and its first line is not passed
  obtain ⟨stop, below, rfl⟩ : ∃ stop below, rest = stop :: below := by
    obtain ⟨found, -⟩ := reviewed_returns.mp left
    obtain ⟨c, target⟩ := List.exists_mem_of_ne_nil _ found
    obtain ⟨front, behind, whole, -⟩ := (standsIn_of_mem_scan (targets_sublist.subset target)).place
    obtain ⟨line, body, lines, header⟩ :=
      (standsIn_of_mem_scan (targets_sublist.subset target)).header
    cases rest with
    | cons stop below => exact ⟨stop, below, rfl⟩
    | nil =>
        have member : line ∈ text.lines := by simp [whole, lines]
        rw [split, List.append_nil] at member
        have body : Header.isHeader line = false := by
          rcases List.mem_append.mp member with passed | blank
          · exact leads.isHeader line passed
          · exact isHeader_of_blank (blanks line blank)
        rw [body] at header
        cases header
  refine ⟨above, gap, stop, below, seen, split, leads, blanks, stops stop below rfl, inserted, ?_,
    Imports.isClear_iff blanks (stops stop below rfl).solid⟩
  obtain ⟨others, lines⟩ := lines_finish_of_top left edit (split ▸ List.prefix_append _ _) higher
  have part : e.applyTo (above ++ ([] ++ others)) = above ++ (e.text.lines ++ others) :=
    LineEdit.applyTo_part (by rw [inserted]) (by simp [inserted])
  rw [List.nil_append] at part
  have shown : e.text.lines = imports.formatted.lines ++ [[]] := by
    rw [inserted, show "\n".toList = '\n' :: [] from rfl, Text.lines_append_feed]
    rfl
  rw [lines, part, shown]
  exact ⟨others, List.append_assoc _ _ _⟩

/-- A comment whose second line has no mark: the block is put between its lines. -/
theorem generate_insertion_license :
    let request : Request := { selector := some .toJson }
    let text : Text :=
      Text.unlines ["/* License", "   of the file", "*/", "class A \x7b",
        "  final int x;", "\x7d", ""]
    ∃ g after, (request.generate text).Returns {} g after ∧
      ["/* License".toList] ++ ["import 'dart:convert';".toList, []] <+: g.code.lines ∧
      ¬ IsClear (text.lines.take 1) (text.lines.drop 1) := by
  intro request text
  obtain ⟨found, block, planned, place, formatted⟩ : request.targets text ≠ [] ∧
      (request.pending text "  ").1.block = none ∧ (request.pending text "  ").1.edit?.isSome ∧
      (request.pending text "  ").1.insertLine = 1 ∧
      (request.pending text "  ").1.formatted.lines = ["import 'dart:convert';".toList] := by
    decide +kernel
  have style : request.style.indent? = .ok "  ".toList := rfl
  have returned := returns_written found style
  obtain ⟨imports, drafts, left, inserted⟩ := generate_insertion returned
  obtain ⟨known, -⟩ := reviewed_of_silent left style
  rw [← known] at block planned place formatted
  obtain ⟨e, edit⟩ := Option.isSome_iff_exists.mp planned
  obtain ⟨above, gap, stop, below, seen, split, -, blanks, -, edited, front, clear⟩ :=
    inserted block e edit
  have start := congrArg LineEdit.start ((Imports.edit?_of_none edit block).symm.trans edited)
  have size : above.length = 1 := by
    dsimp only at start
    omega
  have first : above = text.lines.take 1 := by rw [split, ← size, List.take_left]
  have rest : gap ++ stop :: below = text.lines.drop 1 := by rw [split, ← size, List.drop_left]
  -- the next line is not blank
  have none : gap = [] := by
    cases gap with
    | nil => rfl
    | cons line more =>
        have second : text.lines[1]? = some line := by rw [← List.head?_drop, ← rest]; rfl
        have blank := blanks line (by simp)
        obtain rfl : "   of the file" = line :=
          Option.some.inj ((by decide : text.lines[1]? = _).symm.trans second)
        exact absurd blank (by decide)
  refine ⟨_, _, returned, ?_, ?_⟩
  · rw [first, formatted] at front
    exact front
  · rw [first, rest, none, List.append_nil] at clear
    rw [clear]
    decide +kernel

end Request

end ValueClass
