import ValueClass.Proofs.Fresh.Page

/-! # Settled pages

A page is settled for a request when nothing is missing that the request asks for. A run
on a settled page plans no edit, and every run leaves a settled page.
-/

namespace ValueClass.Fresh

open Dart Dart.Line Dart.Imports

namespace Stage

variable {s : Surroundings} {c : ClassText} (st : Stage s c) {selector : Option MemberKind}

structure Settled (selector : Option MemberKind) : Prop where
  methods : st.missing (st.asked selector) = []
  ctor : .constructor ∈ st.asked selector → st.hasCtor
  props : .props ∈ st.asked selector → st.extended

theorem settled_run (selector : Option MemberKind) : (st.run selector).Settled selector := by
  refine ⟨?_, ?_, ?_⟩
  · rw [List.eq_nil_iff_forall_not_mem]
    intro kind member
    obtain ⟨asked, method, absent⟩ := (st.run selector).mem_missing.mp member
    rw [st.asked_run] at asked
    -- what was missing before was written by the run
    have kinds : (st.run selector).kinds = st.kinds ++ st.missing (st.asked selector) := rfl
    rw [kinds, List.mem_append, not_or] at absent
    exact absent.2 (st.mem_missing.mpr ⟨asked, method, absent.1⟩)
  · intro asked
    rw [st.asked_run] at asked
    have hasCtor : (st.run selector).hasCtor =
        (st.hasCtor || (st.asked selector).contains .constructor) := rfl
    rw [hasCtor, List.contains_iff_mem.mpr asked, Bool.or_true]
  · intro asked
    rw [st.asked_run] at asked
    have extended : (st.run selector).extended =
        (st.extended || (st.asked selector).contains .props) := rfl
    rw [extended, List.contains_iff_mem.mpr asked, Bool.or_true]

end Stage

theorem Row.needs_run {s : Surroundings} (request : Request) (row : Row s) :
    (row.run request).needs request = row.needs request := by
  rw [Row.run]
  split
  · rw [Row.needs, Row.needs, Stage.needs, Stage.needs, Stage.asked_run]
  · rfl

theorem exists_row_of_mem {s : Surroundings} {rows : List (Row s)} {lineNo : Nat} {c : ClassDecl}
    (member : c ∈ rowDecls lineNo rows) :
    ∃ above row below, rows = above ++ row :: below ∧
      c = row.stage.decl (lineNo + (rowLines above).length) := by
  induction rows generalizing lineNo with
  | nil => cases member
  | cons first rest ih =>
      rcases List.mem_cons.mp member with rfl | member
      · exact ⟨[], first, rest, rfl, rfl⟩
      · obtain ⟨above, row, below, rfl, rfl⟩ := ih member
        refine ⟨first :: above, row, below, rfl, ?_⟩
        rw [rowLines_cons, List.length_append, Nat.add_assoc]

namespace Page

variable {s : Surroundings} {packageName : Option Text} (p : Page s packageName) {request : Request}

/-- Nothing is missing that a request asks for. -/
structure Settled (request : Request) : Prop where
  rows : ∀ row ∈ p.rows, request.named row.cls.plain → row.stage.Settled request.selector
  libs : p.needs request ⊆ p.libs

theorem settled_run : (p.run request).Settled request := by
  constructor
  · intro row member named
    obtain ⟨old, -, rfl⟩ := List.mem_map.mp member
    rw [Row.run] at named ⊢
    split at named
    · rename_i asked
      rw [if_pos asked]
      exact old.stage.settled_run request.selector
    · rename_i other
      exact absurd named other
  · have same : (p.run request).needs request = p.needs request := by
      show (p.rows.map (Row.run request)).flatMap (Row.needs request) = _
      rw [List.flatMap_map]
      exact List.flatMap_congr fun row _ => row.needs_run request
    rw [same]
    exact List.subset_append_right _ _

variable {text : Text} (here : text.lines = p.lines) (fits : Fits request s packageName)

include here fits

theorem unattended_eq_ok (named : ∃ c ∈ p.classes, request.named c.plain) :
    request.unattended text = .ok (request.written text s.indent) :=
  Request.unattended_eq_ok.mpr ⟨(p.targets_ne_nil here).mpr named, s.indent, fits.indent, rfl⟩

theorem edits_eq_nil (settled : p.Settled request) :
    (request.written text s.indent).edits = [] := by
  have block : ((ofText text packageName).requireAll (p.needs request)).edit? = none :=
    edit?_topLines p.known p.trim_gap p.opens_rowLines here (List.map_subset _ settled.libs)
  have classes : ∀ c ∈ request.targets text, (draftFor s request.selector c).edit? = none := by
    intro c target
    rw [p.targets_eq here] at target
    obtain ⟨listed, asked⟩ := List.mem_filter.mp target
    obtain ⟨above, row, below, rows, rfl⟩ := exists_row_of_mem listed
    rw [named_decl] at asked
    obtain ⟨methods, ctor, props⟩ := settled.rows row (by simp [rows]) asked
    exact row.stage.edit?_eq_none methods ctor props
  rw [Request.written, p.pending_eq here fits]
  show planEdits _ _ = []
  rw [planEdits, block, Option.toList_none, List.append_nil, List.filterMap_eq_nil_iff]
  intro d member
  obtain ⟨c, target, rfl⟩ := List.mem_map.mp (List.mem_reverse.mp member)
  exact classes c target

theorem unattended_settled (named : ∃ c ∈ p.classes, request.named c.plain)
    (settled : p.Settled request) :
    ∃ g, request.unattended text = .ok g ∧ g.edits = [] ∧ g.code = text := by
  have edits := p.edits_eq_nil here fits settled
  refine ⟨_, p.unattended_eq_ok here fits named, edits, ?_⟩
  show LineEdit.applyAll (request.written text s.indent).edits text = text
  rw [edits]
  exact Text.unlines_lines text

end Page

/-! ## Fresh buffers -/

def ClassText.start {s : Surroundings} (c : ClassText) (ind : IsIndent s.indent)
    (unhashed : c.Unhashed) : Stage s c where
  extended := false
  hasCtor := false
  kinds := []
  methods := []
  stands := .nil
  isIndent := ind
  unhashed := unhashed

theorem ClassText.lines_start {s : Surroundings} (c : ClassText) (ind : IsIndent s.indent)
    (unhashed : c.Unhashed) :
    (c.start ind unhashed).lines = c.lines := by
  have front : (c.start ind unhashed).frame.front = headerLine c.name false ::
      (c.fields.map (·.line) ++ []) := rfl
  rw [Stage.lines, front, List.append_nil, ClassText.lines]
  rfl

def Row.IsStart {s : Surroundings} (row : Row s) : Prop :=
  ∃ ind unhashed, row.stage = row.cls.start ind unhashed

theorem exists_rows {s : Surroundings} (ind : IsIndent s.indent)
    {parts : List (List Text × ClassText)} {ending : List Text}
    (gaps : ∀ part ∈ parts, IsGap part.1) (last : IsGap ending)
    (unhashed : ∀ part ∈ parts, part.2.Unhashed) :
    ∃ (top : List Text) (rows : List (Row s)),
      parts.flatMap (fun part => part.1 ++ part.2.lines) ++ ending =
        top ++ rowLines rows ∧ IsGap top ∧ rows.map (·.cls) = parts.map (·.2) ∧
          ∀ row ∈ rows, row.IsStart := by
  induction parts with
  | nil => exact ⟨ending, [], by simp [rowLines], last, rfl, by simp⟩
  | cons part rest ih =>
      obtain ⟨gap, rows, same, blank, classes, starts⟩ :=
        ih (fun p member => gaps p (List.mem_cons_of_mem _ member)) fun p member =>
          unhashed p (List.mem_cons_of_mem _ member)
      have own := unhashed part (by simp)
      refine ⟨part.1, { cls := part.2, stage := part.2.start ind own, gap, isGap := blank } :: rows,
        ?_, gaps part (by simp),
        by simp [classes], ?_⟩
      · rw [List.flatMap_cons, List.append_assoc, same, rowLines_cons, Row.lines,
          part.2.lines_start]
        simp only [List.append_assoc]
      · intro row member
        rcases List.mem_cons.mp member with rfl | member
        · exact ⟨ind, own, rfl⟩
        · exact starts row member

theorem Buffer.exists_page (b : Buffer) {s : Surroundings} (ind : IsIndent s.indent)
    (unhashed : ∀ part ∈ b.classes, part.2.Unhashed) (packageName : Option Text) :
    ∃ p : Page s packageName, b.text.lines = p.lines ∧ p.libs = [] ∧
      p.classes = b.classes.map (·.2) ∧
      ∀ row ∈ p.rows, row.IsStart := by
  obtain ⟨gap, rows, same, blank, classes, starts⟩ := exists_rows ind b.gaps b.endingGap unhashed
  have nonempty : rows ≠ [] := by
    rintro rfl
    exact b.nonempty (List.map_eq_nil_iff.mp classes.symm)
  refine ⟨⟨[], gap, rows, List.nil_subset _, by simp, blank, nonempty⟩, ?_, rfl, classes, starts⟩
  exact b.lines_text.trans same

theorem Row.IsStart.bare {s : Surroundings} {row : Row s} (h : row.IsStart) :
    ∀ line ∈ row.stage.methods, '/' ∉ line := by
  obtain ⟨ind, unhashed, same⟩ := h
  rw [same]
  simp [ClassText.start]

theorem fits_ownSurroundings (request : Request) {indent : Text}
    (style : request.style.indent? = .ok indent) :
    Fits request (request.ownSurroundings indent) request.project.packageName :=
  ⟨style, rfl, rfl⟩

theorem Buffer.exists_run (b : Buffer) (unhashed : ∀ part ∈ b.classes, part.2.Unhashed)
    {request : Request} {g : Generated} (ok : request.unattended b.text = .ok g) :
    ∃ (s : Surroundings) (p : Page s request.project.packageName),
      Fits request s request.project.packageName ∧
      (∀ row ∈ p.rows, row.IsStart) ∧ g.code.lines = (p.run request).lines ∧
      ∃ c ∈ (p.run request).classes, request.named c.plain := by
  obtain ⟨found, indent, style, -⟩ := Request.unattended_eq_ok.mp ok
  have fits := fits_ownSurroundings request style
  obtain ⟨p, here, -, -, starts⟩ :=
    b.exists_page (s := request.ownSurroundings indent) (isIndent_of_indent? style) unhashed
      request.project.packageName
  refine ⟨_, p, fits, starts, p.lines_run here fits (fun row member => (starts row member).bare) ok,
    ?_⟩
  rw [p.classes_run]
  exact (p.targets_ne_nil here).mp found

/-- A second run finds nothing to do. -/
theorem unattended_twice (b : Buffer) (unhashed : ∀ part ∈ b.classes, part.2.Unhashed)
    (request : Request) {g : Generated} (ok : request.unattended b.text = .ok g) :
    ∃ again, request.unattended g.code = .ok again ∧ again.edits = [] ∧ again.code = g.code := by
  obtain ⟨s, p, fits, -, written, named⟩ := b.exists_run unhashed ok
  exact (p.run request).unattended_settled written fits named p.settled_run

def sampleBuffer : Buffer where
  classes := [([],
    { name := "A"
      fields := [
        { type :=
            { name := "int"
              isIdentifier := ⟨by decide, 'i', "nt".toList, rfl, by decide⟩
              typeChars := by simp
              closed := by simp
              unreserved := by decide }
          name := "x"
          isIdentifier := ⟨by decide, 'x', [], rfl, by decide⟩
          unreserved := by decide }]
      isIdentifier := ⟨by decide, 'A', [], rfl, by decide⟩
      upper := ⟨'A', [], rfl, by decide⟩
      nonempty := by simp
      distinct := by decide })]
  ending := [[]]
  nonempty := by simp
  gaps := by simp [IsGap]
  endingGap := by simp [IsGap, Text.isBlankText]

theorem unhashed_sampleBuffer : ∀ part ∈ sampleBuffer.classes, part.2.Unhashed := by
  have apart : ∀ part ∈ sampleBuffer.classes, ∀ f ∈ part.2.fields, ¬ hashWord <+: f.name ∧
      ¬ hashWord <+: f.type.text := by
    decide
  intro part member
  constructor
  · rintro ⟨f, inside, starts⟩
    exact (apart part member f inside).1 starts
  · rintro ⟨f, inside, starts⟩
    exact (apart part member f inside).2 starts

/-- The sample with all members that the default style enables. -/
theorem unattended_twice_sample : ∃ g, ({} : Request).unattended sampleBuffer.text = .ok g ∧
    ∃ again, ({} : Request).unattended g.code = .ok again ∧ again.edits = [] ∧
      again.code = g.code := by
  have ok : ({} : Request).unattended sampleBuffer.text =
      .ok (({} : Request).written sampleBuffer.text "  ") :=
    Request.unattended_eq_ok.mpr ⟨by decide +kernel, _, rfl, rfl⟩
  exact ⟨_, ok, unattended_twice sampleBuffer unhashed_sampleBuffer {} ok⟩

end ValueClass.Fresh
