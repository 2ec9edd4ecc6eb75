import ValueClass.Proofs.Dart.ImportText
import ValueClass.Proofs.Fresh.Growth

/-! # Sessions

A session starts from a fresh buffer and takes step after step, each with its own
settings and its own replies. Below some lines that open no class the buffer is made
of the classes it started from, each as it has grown; a step keeps this, and so the
classes and their fields are read from the buffer as they were at the start.
-/

namespace ValueClass

/-- One step of a session: what is asked for, and the user who is there to reply. -/
structure Step where
  request : Request
  user : Interview := {}
  deriving Repr, DecidableEq

/-- The buffer after a step. A step that fails leaves the buffer as it was. -/
def Step.apply (step : Step) (text : Text) : Text :=
  match ((step.request.generate text).result step.user).1 with
  | .ok g => g.code
  | .error _ => text

def session (text : Text) (steps : List Step) : Text :=
  steps.foldl (fun text step => step.apply text) text

namespace Dart

/-- The name of a class with the types and names of its fields. -/
def ClassDecl.outline (c : ClassDecl) : Text × List (Text × Text) :=
  (c.name, c.fields.map fun f => (f.rawType, f.name))

end Dart

namespace Fresh

open Dart

/-- The name of a fresh class with the types and names of its fields. -/
def ClassText.outline (c : ClassText) : Text × List (Text × Text) :=
  (c.name, c.fields.map fun f => (f.type.text, f.name))

/-! ## Grown classes below each other -/

/-- The lines of grown classes, one class below the other. -/
inductive GrownLines : List ClassText → List Text → Prop where
  | nil : GrownLines [] []
  | cons {c : ClassText} {classes : List ClassText} {ls : List Text} (g : Grown c)
    (below : GrownLines classes ls) :
      GrownLines (c :: classes) (g.lines ++ ls)

theorem Grown.outline_decl {c : ClassText} (g : Grown c) (lineNo : Nat) (taken : List Text)
    (lastLine : Option Nat) :
    (g.decl lineNo taken lastLine).outline = c.outline := by
  have fields : (g.decl lineNo taken lastLine).fields = placed (lineNo + 1) c.fields := rfl
  have outline : (placed (lineNo + 1) c.fields).map (fun f => (f.rawType, f.name)) =
      (c.fields.map (·.field 1)).map fun f => (f.rawType, f.name) :=
        placed_map (fun _ _ => rfl) c.fields _
  rw [ClassDecl.outline, fields, outline, List.map_map]
  rfl

/-- What is written back for a grown class that was read. -/
theorem Grown.edited {c : ClassText} (g : Grown c) {s : Surroundings} (ind : IsIndent s.indent)
    {selector : Option MemberKind} {lineNo : Nat} {taken beyond : List Text} {lastLine : Option Nat}
    (split : g.tail = taken ++ beyond) (closes : Closes (lineNo + g.front.length) taken lastLine)
    (whole : ∀ line ∈ taken, '\n' ∉ line) {d : Draft}
    (review : d.IsReviewOf (draftFor s selector (g.decl lineNo taken lastLine))) {above : List Text}
    (place : lineNo = above.length + 1) (rest : List Text) :
    ∃ g' : Grown c, d.edit?.toList.foldl (fun ls e => e.applyTo ls) (above ++ (g.lines ++ rest)) =
      above ++ (g'.lines ++ rest) := by
  have isOf : d.IsOf (g.decl lineNo taken lastLine) := by
    rw [Draft.IsOf, review.1]
    exact (alike_draftFor s selector _).body
  have ending : d.decl.lastLine = lastLine := isOf.lastLine
  have first : d.decl.firstLine = lineNo := isOf.firstLine
  cases edit : d.edit? with
  | none => exact ⟨g, rfl⟩
  | some e =>
      rw [Draft.edit?, ending] at edit
      cases closes with
      | never => cases edit
      | @last inner closing level =>
          dsimp only at edit
          split at edit
          · cases edit
            have mild : ∀ line ∈ inner ++ [closing], Mild line :=
              fun line member => g.calm.mild line (split ▸ List.mem_append_left _ member)
            obtain ⟨g', written⟩ := (g.pending_of_isReviewOf ind mild review).render_grown
              (by rw [split, List.append_assoc, List.singleton_append]) rfl level whole
            refine ⟨g', ?_⟩
            have lines : g.lines = g.front ++ (inner ++ [closing]) ++ beyond := by
              rw [Grown.lines, split, ← List.append_assoc]
            have size : (g.front ++ (inner ++ [closing])).length = g.front.length +
                inner.length + 1 := by
              simp only [List.length_append, List.length_singleton]
              omega
            rw [Option.toList_some, List.foldl_cons, List.foldl_nil, lines,
              List.append_assoc (_ ++ _), LineEdit.applyTo_part, ← written, List.append_assoc]
            all_goals dsimp only
            all_goals omega
          · cases edit

namespace GrownLines

variable {classes : List ClassText} {ls : List Text}

theorem isHeader_head (h : GrownLines classes ls) :
    ∀ line more, ls = line :: more → Header.isHeader line := by
  rintro line more same
  cases h with
  | nil => cases same
  | @cons c classes below g grown =>
      cases same
      exact isHeader_headerLine c.isIdentifier g.extended

theorem outline_scanFrom (h : GrownLines classes ls) (lineNo : Nat) (previous : Text) :
    (scanFrom lineNo previous none ls).map ClassDecl.outline = classes.map ClassText.outline := by
  induction h generalizing lineNo previous with
  | nil => rfl
  | cons g below ih =>
      obtain ⟨taken, beyond, lastLine, before, -, -, scanned⟩ :=
        g.scanFrom_lines lineNo previous below.isHeader_head
      rw [scanned, List.map_cons, List.map_cons, g.outline_decl, ih]

/-- The edits of the classes leave grown classes. -/
theorem edited (h : GrownLines classes ls) {s : Surroundings} (ind : IsIndent s.indent)
    {selector : Option MemberKind} {p : ClassDecl → Bool} (whole : ∀ line ∈ ls, '\n' ∉ line)
    {above : List Text}
    {previous : Text} {drafts : List Draft}
    (review : List.Forall₂ Draft.IsReviewOf drafts
      (((scanFrom (above.length + 1) previous none ls).filter p).map (draftFor s selector))) :
    ∃ ls', GrownLines classes ls' ∧
      (drafts.reverse.filterMap Draft.edit?).foldl (fun ls e => e.applyTo ls) (above ++ ls) =
        above ++ ls' := by
  induction h generalizing above previous drafts with
  | nil =>
      cases review
      exact ⟨[], .nil, rfl⟩
  | @cons c classes ls g below ih =>
      obtain ⟨taken, beyond, lastLine, before, split, closes, scanned⟩ :=
        g.scanFrom_lines (above.length + 1) previous below.isHeader_head
      have lower : ∀ line ∈ ls, '\n' ∉ line :=
        fun line member => whole line (List.mem_append_right _ member)
      have place : above.length + 1 + g.lines.length = (above ++ g.lines).length + 1 := by
        rw [List.length_append]
        omega
      rw [scanned, place, List.filter_cons] at review
      split at review
      · rw [List.map_cons] at review
        cases review with
        | @cons d _ drafts _ one more =>
            obtain ⟨ls', grown, others⟩ := ih lower more
            have inside : ∀ line ∈ taken, '\n' ∉ line := by
              intro line member
              refine whole line (List.mem_append_left _ (List.mem_append_right _ ?_))
              exact split ▸ List.mem_append_left _ member
            obtain ⟨g', edited⟩ := g.edited ind split closes inside one rfl ls'
            refine ⟨g'.lines ++ ls', .cons g' grown, ?_⟩
            rw [← edited, ← List.append_assoc, ← List.append_assoc, ← others, List.reverse_cons,
              List.filterMap_append, List.foldl_append]
            cases h : d.edit? <;> simp [h]
      · obtain ⟨ls', grown, others⟩ := ih lower review
        refine ⟨g.lines ++ ls', .cons g grown, ?_⟩
        rw [← List.append_assoc, others, List.append_assoc]

end GrownLines

/-! ## Buffers -/

/-- A buffer with grown classes below lines that open none. -/
def GrownText (classes : List ClassText) (text : Text) : Prop :=
  ∃ top ls, text.lines = top ++ ls ∧ (∀ line ∈ top, Header.isHeader line = false) ∧
    GrownLines classes ls

theorem isIndent_of_indent? {style : Style} {indent : Text} (h : style.indent? = .ok indent) :
    IsIndent indent := by
  rw [Style.indent?] at h
  split at h
  · cases h
    exact isIndent_spaces _
  · cases h

namespace GrownText

variable {classes : List ClassText} {text : Text}

theorem outline_scan (h : GrownText classes text) :
    (scan text).map ClassDecl.outline = classes.map ClassText.outline := by
  obtain ⟨top, ls, split, plain, grown⟩ := h
  rw [scan, split, scanFrom_passed plain]
  exact grown.outline_scanFrom _ _

theorem applyTo_top {imports : Imports} {top ls : List Text} {limit : Nat} {e : LineEdit}
    (above : imports.Above limit) (inside : limit ≤ top.length) (edit : imports.edit? = some e)
    (plain : ∀ line ∈ top, Header.isHeader line = false)
    (opens : ∀ line ∈ e.text.lines, Header.isHeader line = false) :
    ∃ top', e.applyTo (top ++ ls) = top' ++ ls ∧ ∀ line ∈ top', Header.isHeader line = false := by
  obtain ⟨start, order, stop⟩ := Imports.edit?_above above edit
  have stop : e.stop ≤ top.length := by omega
  refine ⟨e.applyTo top, LineEdit.applyTo_append start order stop, ?_⟩
  intro line member
  rw [LineEdit.applyTo_eq start order stop] at member
  simp only [List.mem_append] at member
  rcases member with (member | member) | member
  · exact plain line (List.mem_of_mem_take member)
  · exact opens line member
  · exact plain line (List.mem_of_mem_drop member)

/-- A run that succeeds leaves grown classes below lines that open none. -/
theorem generate (h : GrownText classes text) {request : Request} {before after : Interview}
    {g : Generated} (success : (request.generate text).Returns before g after) :
    GrownText classes g.code := by
  obtain ⟨top, ls, split, plain, grown⟩ := h
  obtain ⟨imports, drafts, reviewed, rfl⟩ := Request.generate_returns.mp success
  obtain ⟨isOf, -⟩ := Request.isOf_of_reviewed reviewed
  obtain ⟨found, indent, style, rfl, asked⟩ := Request.reviewed_returns.mp reviewed
  have pending : DraftsOf text drafts := ⟨_, Request.targets_sublist, isOf⟩
  rw [Request.pending_eq] at asked ⊢
  set needs := (request.targets text).flatMap
    (needsFor (request.surroundings text indent) request.selector)
  set imports := (Imports.ofText text request.project.packageName).requireAll needs
  have known : needs ⊆ memberLibraries := by
    intro need member
    obtain ⟨c, -, asked⟩ := List.mem_flatMap.mp member
    exact needsFor_subset _ _ c asked
  have whole : ∀ line ∈ ls, '\n' ∉ line := fun line member =>
    Text.notMem_of_mem_lines (split ▸ List.mem_append_right top member)
  -- what the edits of the classes leave
  have scanned : scan text = scanFrom (top.length + 1) (top.getLast?.getD []) none ls := by
    rw [scan, split, scanFrom_passed plain, Nat.add_comm]
  have review := review_isReviewOf asked
  rw [Request.targets, List.filter_filter, scanned] at review
  obtain ⟨ls', grown', edited⟩ := grown.edited (isIndent_of_indent? style) whole review
  have plan := @bottomUp_requireAll text request.project.packageName needs drafts pending
  have lines : (request.finish text imports drafts).code.lines =
      imports.edit?.toList.foldl (fun ls e => e.applyTo ls) (top ++ ls') := by
    show (LineEdit.applyAll (planEdits drafts imports) text).lines = _
    rw [LineEdit.lines_applyAll, LineEdit.bottomUp_eq_self plan.descending, planEdits,
      List.foldl_append, split, edited]
  rw [GrownText, lines]
  cases edit : imports.edit? with
  | none => exact ⟨top, ls', rfl, plain, grown'⟩
  | some e =>
      obtain ⟨limit, inside, above⟩ : ∃ limit, limit ≤ top.length ∧ imports.Above limit := by
        obtain ⟨passed, rest, same, bodies, above⟩ :=
          Imports.ofText_above text request.project.packageName
        refine ⟨passed.length, ?_, Imports.requireAll_above needs above⟩
        by_contra long
        rw [not_le] at long
        -- otherwise the first class opens among the lines that were passed
        cases ls with
        | nil =>
            have size := congrArg List.length (same.symm.trans split)
            rw [List.append_nil, List.length_append] at size
            omega
        | cons line more =>
            have here : text.lines[top.length]? = some line := by simp [split]
            rw [same, List.getElem?_append_left long] at here
            have header := grown.isHeader_head line more rfl
            simp [bodies line (List.mem_of_getElem? here)] at header
      obtain ⟨top', same, plain'⟩ :=
        applyTo_top above inside edit plain (Imports.isHeader_of_edit? known edit)
      exact ⟨top', ls', same, plain', grown'⟩

theorem apply (h : GrownText classes text) (step : Step) : GrownText classes (step.apply text) := by
  rw [Step.apply]
  split
  · rename_i g success
    have returns : (step.request.generate text).Returns step.user g
        ((step.request.generate text).result step.user).2 := Prod.ext success rfl
    exact h.generate returns
  · exact h

theorem session (h : GrownText classes text) (steps : List Step) :
    GrownText classes (session text steps) := by
  induction steps generalizing text with
  | nil => exact h
  | cons step rest ih => exact ih (h.apply step)

end GrownText

/-! ## Fresh buffers -/

theorem isIndent_of_blank {line : Text} (blank : line.isBlankText) (noFeed : '\n' ∉ line) :
    IsIndent line := by
  refine ⟨blank, List.all_eq_true.mpr fun d member => isLight_of_isTypeChar ?_⟩
  have solid : d ≠ '\n' := fun same => noFeed (same ▸ member)
  simp [isTypeChar, List.all_eq_true.mp blank d member, solid]

theorem calm_gap (c : ClassText) {gap : List Text} (blank : IsGap gap) : Calm c.name false gap := by
  refine calm_of_tame fun line member => ?_
  obtain ⟨blank, noFeed⟩ := blank line member
  have written := written_nil.indent blank (isIndent_of_blank blank noFeed).light
  rw [List.append_nil] at written
  exact ⟨mild_of_written written (by decide) (by decide), tame_of_isBlankText blank⟩

/-- A fresh class with the blank lines below it. -/
def ClassText.seed (c : ClassText) {gap : List Text} (blank : IsGap gap) : Grown c where
  extended := false
  forms := none
  indent := []
  tail := "\x7d".toList :: gap
  isIndent := ⟨rfl, rfl⟩
  calm := by
    have ind : IsIndent [] := ⟨rfl, rfl⟩
    refine .cons (mild_of_written written_brace (by decide) (by decide)) (.inl ?_)
      (calm_gap c blank).exposed
    exact tame_closing ind written_brace (solid_of_all (by decide) (by decide))

theorem ClassText.lines_seed (c : ClassText) {gap : List Text} (blank : IsGap gap) :
    (c.seed blank).lines = c.lines ++ gap := by
  simp only [Grown.lines, Grown.front, Grown.ctor, seed, oldCtor, Option.map_none, ctorPart,
    List.append_nil, ClassText.lines, List.cons_append, List.append_assoc, List.nil_append]
  rfl

theorem grownLines_fresh {parts : List (List Text × ClassText)} {ending : List Text}
    (gaps : ∀ part ∈ parts, IsGap part.1) (last : IsGap ending) :
    ∃ top ls, parts.flatMap (fun part => part.1 ++ part.2.lines) ++ ending = top ++ ls ∧ IsGap top ∧
      GrownLines (parts.map (·.2)) ls := by
  induction parts with
  | nil => exact ⟨ending, [], by simp, last, .nil⟩
  | cons part rest ih =>
      obtain ⟨top, ls, same, blank, grown⟩ :=
        ih fun p member => gaps p (List.mem_cons_of_mem _ member)
      refine ⟨part.1, (part.2.seed blank).lines ++ ls, ?_, gaps part (by simp), .cons _ grown⟩
      rw [List.flatMap_cons, List.append_assoc, same, part.2.lines_seed]
      simp only [List.append_assoc]

namespace Buffer

variable (b : Buffer)

theorem notMem_lines : ∀ line ∈ b.lines, '\n' ∉ line := by
  intro line member
  rcases List.mem_append.mp member with member | member
  · obtain ⟨part, inside, member⟩ := List.mem_flatMap.mp member
    rcases List.mem_append.mp member with member | member
    · exact (b.gaps part inside line member).2
    · rcases List.mem_cons.mp member with rfl | member
      · exact notMem_headerLine part.2.isIdentifier false (by decide) (by decide)
      · rcases List.mem_append.mp member with member | member
        · obtain ⟨f, -, rfl⟩ := List.mem_map.mp member
          exact f.notMem_line (by decide) (by decide)
        · rw [List.mem_singleton.mp member]
          decide
  · exact (b.endingGap line member).2

theorem lines_text : b.text.lines = b.lines := by
  refine Text.lines_unlines ?_ b.notMem_lines
  obtain ⟨part, rest, same⟩ := List.exists_cons_of_ne_nil b.nonempty
  simp [lines, same, ClassText.lines]

theorem grownText : GrownText (b.classes.map (·.2)) b.text := by
  obtain ⟨top, ls, same, blank, grown⟩ := grownLines_fresh b.gaps b.endingGap
  refine ⟨top, ls, b.lines_text.trans same, fun line member => ?_, grown⟩
  exact isHeader_of_blank (Text.trim_of_isBlankText (blank line member).1)

end Buffer

/-- After any steps the buffer has the classes that it had at the start, with the same fields. -/
theorem scan_session (b : Buffer) (steps : List Step) :
    (scan (session b.text steps)).map ClassDecl.outline = b.classes.map fun part =>
    part.2.outline := by
  rw [(b.grownText.session steps).outline_scan, List.map_map]
  rfl

end Fresh

end ValueClass
