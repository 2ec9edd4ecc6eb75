import ValueClass.Proofs.Dart.ImportLayout
import ValueClass.Proofs.Member.Segment

/-! # Reading the import block back

Reading passes comments, one library line and blank lines, takes in the directives
below them, and ends at the first other line. Writing the block leaves what is above
and below it, so reading ends at the same line again and finds the directives as they
were written.
-/

namespace ValueClass.Dart

/-- A line above the directives that is neither blank nor one of them: a comment, or the
    library line. -/
def isLead (seenLibrary : Bool) (line : Text) : Bool :=
  !isDirective line && !line.trim.isEmpty &&
    (Line.isComment line.trim || (line.trim.firstWord = "library" && !seenLibrary))

/-- Whether the library line was seen, once a line was passed. -/
def seesLibrary (seenLibrary : Bool) (line : Text) : Bool :=
  seenLibrary || (line.trim.firstWord = "library" && !seenLibrary)

/-- Lines that reading passes above the directives, with whether the library line was seen
    before and behind them. -/
inductive Leads : Bool → List Text → Bool → Prop where
  | nil {seen : Bool} : Leads seen [] seen
  | blank {seen after : Bool} {line : Text} {rest : List Text} (blank : line.trim = [])
    (below : Leads seen rest after) :
      Leads seen (line :: rest) after
  | lead {seen after : Bool} {line : Text} {rest : List Text} (lead : isLead seen line)
      (below : Leads (seesLibrary seen line) rest after) : Leads seen (line :: rest) after

/-- Lines among the directives: they hold one or are blank. -/
def IsBody (ls : List Text) : Prop :=
  ∀ line ∈ ls, isDirective line ∨ line.trim = []

/-- Lines that reading ends before, once there are directives. -/
def Halts (rest : List Text) : Prop :=
  ∀ line more, rest = line :: more → isDirective line = false ∧ line.trim ≠ []

theorem IsBody.cons {line : Text} {ls : List Text} (h : isDirective line ∨ line.trim = [])
    (below : IsBody ls) :
    IsBody (line :: ls) :=
  List.forall_mem_cons.mpr ⟨h, below⟩

theorem isDirective_of_blank {line : Text} (blank : line.trim = []) : isDirective line = false := by
  rw [isDirective, blank]
  decide

theorem Leads.append_blank {seen after : Bool} {above gap : List Text} (h : Leads seen above after)
    (blank : ∀ line ∈ gap, line.trim = []) : Leads seen (above ++ gap) after := by
  induction h with
  | nil =>
      induction gap with
      | nil => exact .nil
      | cons line rest ih => exact .blank (blank line (by simp)) (ih fun l member =>
          blank l (List.mem_cons_of_mem _ member))
  | blank empty below ih => exact .blank empty ih
  | lead lead below ih => exact .lead lead ih

theorem filter_isDirective_blank {gap : List Text} (blank : ∀ line ∈ gap, line.trim = []) :
    gap.filter isDirective = [] := by
  rw [List.filter_eq_nil_iff]
  intro line member
  simp [isDirective_of_blank (blank line member)]

/-! ## The lines of a block -/

section Entries

variable {groups : List (List Text)} (entries : ∀ line ∈ groups.flatten, IsEntry line)
include entries

theorem isBody_spaced : IsBody (spaced groups) := by
  intro line member
  rcases mem_spaced member with rfl | member
  · exact .inr rfl
  · exact .inl (entries line member).directive

theorem filter_isDirective_spaced : (spaced groups).filter isDirective = groups.flatten := by
  rw [filter_spaced (by decide), List.filter_eq_self]
  exact fun line member => (entries line member).directive

theorem map_trim_entries : groups.flatten.map Text.trim = groups.flatten :=
  (List.map_congr_left fun line member => (entries line member).trimmed).trans (List.map_id _)

end Entries

namespace Imports

variable {imports : Imports} {seen after : Bool} {lineNo : Nat} {line : Text}
  {above body gap rest : List Text}

/-! ## One line -/

theorem readFrom_directive (directive : isDirective line) :
    imports.readFrom seen lineNo (line :: rest) = (imports.readDirective lineNo line).readFrom seen
      (lineNo + 1) rest := by
  rw [readFrom]
  simp only [directive, ↓reduceIte]

theorem readFrom_blank (blank : line.trim = []) :
    imports.readFrom seen lineNo (line :: rest) = imports.readFrom seen (lineNo + 1) rest := by
  rw [readFrom]
  simp [isDirective_of_blank blank, blank]

theorem readFrom_lead (none : imports.values = []) (lead : isLead seen line) :
    imports.readFrom seen lineNo (line :: rest) =
      readFrom { imports with insertLine := lineNo + 1 } (seesLibrary seen line)
        (lineNo + 1) rest := by
  simp only [isLead, Bool.and_eq_true, Bool.not_eq_true'] at lead
  obtain ⟨⟨plain, solid⟩, passed⟩ := lead
  rw [readFrom]
  simp only [plain, solid, none, passed, Bool.false_eq_true, ↓reduceIte, List.isEmpty_nil,
    Bool.true_and, seesLibrary]

theorem readFrom_halts (plain : isDirective line = false) (solid : line.trim ≠ [])
    (ends : imports.values = [] → isLead seen line = false) :
    imports.readFrom seen lineNo (line :: rest) = imports := by
  have solid : line.trim.isEmpty = false := by simpa using solid
  rw [readFrom]
  simp only [plain, solid, Bool.false_eq_true, ↓reduceIte]
  rw [if_neg]
  rw [Bool.and_eq_true]
  rintro ⟨none, passed⟩
  have lead : isLead seen line := by
    simp only [isLead, plain, solid, Bool.not_false, Bool.true_and]
    exact passed
  rw [ends (List.isEmpty_iff.mp none)] at lead
  cases lead

/-! ## Reading known lines -/

theorem readFrom_leads (leads : Leads seen above after) (none : imports.values = []) :
    ∃ insertLine, imports.readFrom seen lineNo (above ++ rest) =
      readFrom { imports with insertLine } after (lineNo + above.length) rest := by
  induction leads generalizing imports lineNo with
  | nil => exact ⟨imports.insertLine, rfl⟩
  | @blank seen after line more blank below ih =>
      obtain ⟨insertLine, same⟩ := @ih imports (lineNo + 1) none
      refine ⟨insertLine, ?_⟩
      rw [List.cons_append, readFrom_blank blank, same, List.length_cons, Nat.add_assoc,
        Nat.add_comm 1]
  | @lead seen after line more lead below ih =>
      obtain ⟨insertLine, same⟩ := @ih { imports with insertLine := lineNo + 1 } (lineNo + 1) none
      refine ⟨insertLine, ?_⟩
      rw [List.cons_append, readFrom_lead none lead, same, List.length_cons, Nat.add_assoc,
        Nat.add_comm 1]

theorem readFrom_body (directives : IsBody body) :
    ∃ block, imports.readFrom seen lineNo (body ++ rest) =
      readFrom { imports with
        values := imports.values ++ (body.filter isDirective).map Text.trim
        written := imports.written ++ body.filter isDirective
        block } seen (lineNo + body.length) rest := by
  induction body generalizing imports lineNo with
  | nil => exact ⟨imports.block, by simp⟩
  | cons line more ih =>
      have others : IsBody more := fun l member => directives l (List.mem_cons_of_mem _ member)
      have count : lineNo + 1 + more.length = lineNo + (line :: more).length := by
        rw [List.length_cons]
        omega
      rcases directives line (by simp) with directive | blank
      · obtain ⟨block, same⟩ := @ih (imports.readDirective lineNo line) (lineNo + 1) others
        refine ⟨block, ?_⟩
        rw [List.cons_append, readFrom_directive directive, same, count,
          List.filter_cons_of_pos directive]
        simp [readDirective]
      · obtain ⟨block, same⟩ := @ih imports (lineNo + 1) others
        refine ⟨block, ?_⟩
        rw [List.cons_append, readFrom_blank blank, same, count,
          List.filter_cons_of_neg (by simp [isDirective_of_blank blank])]

theorem ofText_eq {text : Text} (packageName : Option Text)
    (split : text.lines = above ++ (body ++ rest)) (leads : Leads false above after)
    (directives : IsBody body) (present : body.filter isDirective ≠ []) (halts : Halts rest) :
    (ofText text packageName).values = (body.filter isDirective).map Text.trim ∧
      (ofText text packageName).written = body.filter isDirective ∧
      (ofText text packageName).packageName = packageName := by
  obtain ⟨insertLine, first⟩ :=
    @readFrom_leads { source := text, packageName } false after 0 above (body ++ rest) leads rfl
  obtain ⟨block, second⟩ :=
    @readFrom_body { source := text, packageName, insertLine } after (0 + above.length) body rest
    directives
  rw [ofText, split, first, second]
  cases rest with
  | nil =>
      rw [readFrom]
      exact ⟨rfl, rfl, rfl⟩
  | cons line more =>
      obtain ⟨plain, solid⟩ := halts line more rfl
      rw [readFrom_halts plain solid (by simp [present])]
      exact ⟨rfl, rfl, rfl⟩

/-! ## Taking lines apart -/

theorem lastLine_body (body : List Text) (lineNo : Nat) :
    (if body = [] then lineNo else lineNo + 1 + body.length - 1) = lineNo +
    (body.length + 1) - 1 := by
  split
  · rename_i empty
    simp [empty]
  · omega

theorem exists_leads (lines : List Text) (none : imports.values = []) :
    ∃ above gap rest after, lines = above ++ (gap ++ rest) ∧ Leads seen above after ∧
      (∀ line ∈ gap, line.trim = []) ∧
      imports.readFrom seen lineNo lines = readFrom { imports with
        insertLine := if above = [] then imports.insertLine else lineNo + above.length }
        after (lineNo + (above ++ gap).length) rest ∧
      ∀ line more, rest = line :: more → line.trim ≠ [] ∧ isLead after line = false := by
  induction lines generalizing imports lineNo seen with
  | nil => exact ⟨[], [], [], seen, rfl, .nil, by simp, by simp, by simp⟩
  | cons line lines ih =>
      by_cases blank : line.trim = []
      · obtain ⟨above, gap, rest, after, rfl, leads, blanks, read, ends⟩ :=
          @ih imports seen (lineNo + 1) none
        rw [readFrom_blank blank, read]
        cases above with
        | nil =>
            refine ⟨[], line :: gap, rest, after, rfl, leads, ?_, ?_, ends⟩
            · simpa using ⟨blank, blanks⟩
            · simp only [↓reduceIte, List.nil_append, List.length_cons]
              rw [Nat.add_assoc, Nat.add_comm 1]
        | cons first more =>
            refine ⟨line :: first :: more, gap, rest, after, rfl, .blank blank leads,
              blanks, ?_, ends⟩
            simp only [reduceCtorEq, ↓reduceIte, List.cons_append, List.length_cons]
            rw [show lineNo + 1 + (more.length + 1) = lineNo + (more.length + 1 + 1) by omega,
              show lineNo + 1 + ((more ++ gap).length + 1) =
                  lineNo + ((more ++ gap).length + 1 + 1) by omega]
      · by_cases lead : isLead seen line
        · obtain ⟨above, gap, rest, after, rfl, leads, blanks, read, ends⟩ :=
            @ih { imports with insertLine := lineNo + 1 } (seesLibrary seen line) (lineNo + 1) none
          refine ⟨line :: above, gap, rest, after, rfl, .lead lead leads, blanks, ?_, ends⟩
          have place : (if above = [] then lineNo + 1 else lineNo + 1 + above.length) =
              lineNo + (above.length + 1) := by
            split
            · rename_i empty
              simp [empty]
            · omega
          rw [readFrom_lead none lead, read]
          simp only [reduceCtorEq, ↓reduceIte, List.cons_append, List.length_cons]
          rw [place,
            show lineNo + 1 + (above ++ gap).length = lineNo + ((above ++ gap).length + 1) by omega]
        · refine ⟨[], [], line :: lines, seen, rfl, .nil, by simp, by simp, ?_⟩
          rintro l more ⟨⟩
          exact ⟨blank, by simpa using lead⟩

theorem exists_body (lines : List Text) (present : imports.values ≠ []) {first last : Nat}
    (known : imports.block = some (first, last)) :
    ∃ body gap rest, lines = body ++ (gap ++ rest) ∧ IsBody body ∧ (∀ line ∈ gap, line.trim = []) ∧
      Halts rest ∧
      imports.readFrom seen lineNo lines = { imports with
        values := imports.values ++ (body.filter isDirective).map Text.trim
        written := imports.written ++ body.filter isDirective
        block := some (first, if body = [] then last else lineNo + body.length - 1) } := by
  induction lines generalizing imports lineNo last with
  | nil =>
      refine ⟨[], [], [], rfl, by simp [IsBody], by simp, by simp [Halts], ?_⟩
      simp [readFrom, ← known]
  | cons line lines ih =>
      by_cases directive : isDirective line
      · have block : (imports.readDirective lineNo line).block = some (first, lineNo) := by
          simp [readDirective, known]
        obtain ⟨body, gap, rest, rfl, directives, blanks, halts, read⟩ :=
          @ih (imports.readDirective lineNo line) (lineNo + 1)
            (by simp [readDirective]) lineNo block
        refine ⟨line :: body, gap, rest, rfl, directives.cons (.inl directive), blanks, halts, ?_⟩
        rw [readFrom_directive directive, read, lastLine_body, List.filter_cons_of_pos directive]
        simp [readDirective]
      · by_cases blank : line.trim = []
        · obtain ⟨body, gap, rest, rfl, directives, blanks, halts, read⟩ :=
            @ih imports (lineNo + 1) present last known
          rw [readFrom_blank blank, read]
          cases body with
          | nil =>
              refine ⟨[], line :: gap, rest, rfl, directives, ?_, halts, rfl⟩
              simpa using ⟨blank, blanks⟩
          | cons next more =>
              refine ⟨line :: next :: more, gap, rest, rfl, directives.cons (.inr blank),
                blanks, halts, ?_⟩
              rw [List.filter_cons_of_neg (a := line) (by simp [directive])]
              simp only [reduceCtorEq, ↓reduceIte, List.length_cons]
              rw [show lineNo + 1 + (more.length + 1) - 1 =
                lineNo + (more.length + 1 + 1) - 1 by omega]
        · refine ⟨[], [], line :: lines, rfl, by simp [IsBody], by simp, ?_, ?_⟩
          · rintro l more ⟨⟩
            exact ⟨by simpa using directive, blank⟩
          · rw [readFrom_halts (by simpa using directive) blank fun none => absurd none present]
            simp [← known]

theorem exists_block (more : List Text) (directive : isDirective line) (fresh : imports.values = [])
    (unwritten : imports.written = []) (unplaced : imports.block = none) :
    ∃ body gap rest, line :: more = body ++ (gap ++ rest) ∧ body ≠ [] ∧ IsBody body ∧
      (∀ l ∈ gap, l.trim = []) ∧ Halts rest ∧
      imports.readFrom seen lineNo (line :: more) = { imports with
        values := (body.filter isDirective).map Text.trim
        written := body.filter isDirective
        block := some (lineNo, lineNo + body.length - 1) } := by
  have opens : (imports.readDirective lineNo line).block = some (lineNo, lineNo) := by
    simp [readDirective, unplaced]
  obtain ⟨body, gap, rest, rfl, directives, blanks, halts, read⟩ :=
    @exists_body (imports.readDirective lineNo line) seen (lineNo + 1) more
      (by simp [readDirective]) lineNo lineNo opens
  refine ⟨line :: body, gap, rest, rfl, List.cons_ne_nil _ _, directives.cons (.inl directive),
    blanks, halts, ?_⟩
  rw [readFrom_directive directive, read, lastLine_body, List.filter_cons_of_pos directive]
  simp [readDirective, fresh, unwritten]

/-- How reading takes a text apart: lines that are passed, the directives, blank lines and the
    rest. Without directives there is only a place for them. -/
theorem ofText_cases (text : Text) (packageName : Option Text) :
    ∃ above body gap rest after, text.lines = above ++ (body ++ (gap ++ rest)) ∧
      Leads false above after ∧
      IsBody body ∧ (∀ line ∈ gap, line.trim = []) ∧ Halts rest ∧
      ofText text packageName = { source := text, packageName
                                  values := (body.filter isDirective).map Text.trim
                                  written := body.filter isDirective
                                  block := (ofText text packageName).block
                                  insertLine := (ofText text packageName).insertLine } ∧
      (body = [] ∧ (ofText text packageName).block = none ∧
        (ofText text packageName).insertLine = above.length ∨
        body ≠ [] ∧ (ofText text packageName).block =
          some (above.length, above.length + body.length - 1)) := by
  obtain ⟨above, gap, rest, after, split, leads, blanks, read, ends⟩ :=
    @exists_leads { source := text, packageName } false 0 text.lines rfl
  have place : (if above = [] then 0 else 0 + above.length) = above.length := by
    split
    · rename_i empty
      simp [empty]
    · omega
  dsimp only at read
  rw [place] at read
  have read : ofText text packageName =
      readFrom { source := text, packageName, insertLine := above.length } after
        (0 + (above ++ gap).length) rest := read
  cases rest with
  | nil =>
      rw [readFrom] at read
      refine ⟨above, [], gap, [], after, split, leads, by simp [IsBody], blanks, by simp [Halts],
        ?_, .inl ?_⟩
      · rw [read]
        rfl
      · rw [read]
        exact ⟨rfl, rfl, rfl⟩
  | cons line more =>
      obtain ⟨solid, stops⟩ := ends line more rfl
      by_cases directive : isDirective line
      · obtain ⟨body, behind, rest, parts, present, directives, empty, halts, whole⟩ :=
          @exists_block { source := text, packageName, insertLine := above.length } after
            (0 + (above ++ gap).length)
            line more directive rfl rfl rfl
        rw [whole, Nat.zero_add] at read
        refine ⟨above ++ gap, body, behind, rest, after, ?_, leads.append_blank blanks, directives,
          empty, halts, ?_, .inr ?_⟩
        · rw [split, parts, List.append_assoc]
        · rw [read]
        · rw [read]
          exact ⟨present, rfl⟩
      · rw [readFrom_halts (by simpa using directive) solid fun _ => stops] at read
        refine ⟨above, [], gap, line :: more, after, split, leads, by simp [IsBody], blanks, ?_,
          ?_, .inl ?_⟩
        · rintro l others ⟨⟩
          exact ⟨by simpa using directive, solid⟩
        · rw [read]
          rfl
        · rw [read]
          exact ⟨rfl, rfl, rfl⟩

end Imports

end ValueClass.Dart
