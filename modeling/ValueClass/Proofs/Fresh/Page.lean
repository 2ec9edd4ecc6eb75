import ValueClass.Proofs.Dart.LibraryBlock
import ValueClass.Proofs.Fresh.Rows

/-! # Pages

A page is a whole buffer in its stages: the block of the libraries that its members call,
blank lines, and a row of classes. A run turns a page into the page with the members that
were missing, and where nothing is missing it plans no edit.
-/

namespace ValueClass

open Dart Dart.Line Dart.Imports

/-- What writing depends on in a buffer that shows no flavor of its own. -/
def Request.ownSurroundings (request : Request) (indent : Text) : Surroundings :=
  { style := request.style, indent, flutter := request.project.flavor == .flutter }

namespace Fresh

/-! ## Kinds and libraries -/

theorem allowedKinds_headerParts (name : Text) (extended : Bool) :
    allowedKinds (headerParts name extended) = MemberKind.all := by
  cases extended <;> rfl

theorem kindsFor_headerParts (style : Style) (name : Text) (extended : Bool)
    (selector : Option MemberKind) :
    kindsFor style (headerParts name extended) selector =
      match selector with
      | some kind => [kind]
      | none => MemberKind.all.filter (style.enables (style.usesEquatable || extended)) := by
  have uses : (headerParts name extended).usesEquatable = extended := by cases extended <;> rfl
  cases selector with
  | none => rw [kindsFor, allowedKinds_headerParts, uses]
  | some kind =>
      have member : MemberKind.all.contains kind := by cases kind <;> rfl
      rw [kindsFor, allowedKinds_headerParts, member]
      rfl

theorem library_of_dart {fields : List Field} {helper : EqualityHelper}
    (h : EqualityHelper.forFields fields false = some helper) :
    helper.library = collectionLibrary := by
  rw [EqualityHelper.forFields] at h
  split at h
  · cases h
  · cases h
    split <;> rfl

namespace Stage

variable {s : Surroundings} {c : ClassText} (st : Stage s c) (selector : Option MemberKind)

def asked : List MemberKind :=
  kindsFor s.style (headerParts c.name st.extended) selector

/-- The libraries that the members of a run call. -/
def needs : List LibraryNeed :=
  (st.asked selector).flatMap (librariesFor s c.plain)

theorem librariesFor_decl (lineNo : Nat) (kind : MemberKind) :
    librariesFor s (st.decl lineNo) kind = librariesFor s c.plain kind := by
  have looks := (st.shows_decl lineNo).looksLike st.isIndent
  cases kind with
  | constructor =>
      obtain ⟨defaults, plan⟩ := (st.shows_decl lineNo).plan_eq st.isIndent s.style
      obtain ⟨others, bare⟩ := (c.shows_plain s.indent).plan_eq st.isIndent s.style
      have forms : CtorForms.next s.style st.forms = .next s.style none := by
        rw [Stage.forms]
        split
        · exact CtorForms.next_next _ _
        · rfl
      show (if (ConstructorPlan.ofClass s.style (st.decl lineNo)).needsMeta then [metaLibrary]
        else []) =
        if (ConstructorPlan.ofClass s.style c.plain).needsMeta then [metaLibrary] else []
      rw [plan, bare, forms]
      rfl
  | equality =>
      show ((EqualityHelper.forFields (st.decl lineNo).fields s.flutter).map (·.library)).toList =
        ((EqualityHelper.forFields c.plain.fields s.flutter).map (·.library)).toList
      rw [EqualityHelper.forFields_congr looks.fields]
  | toJson | fromJson | props | copyWith | toMap | fromMap | toString | hashCode => rfl

theorem needsFor_decl (lineNo : Nat) :
    needsFor s selector (st.decl lineNo) = st.needs selector := by
  have each : librariesFor s (st.decl lineNo) = librariesFor s c.plain :=
    funext (st.librariesFor_decl lineNo)
  rw [needsFor, each]
  rfl

theorem needs_subset : st.needs selector ⊆ memberLibraries := by
  intro need member
  obtain ⟨kind, -, inside⟩ := List.mem_flatMap.mp member
  exact librariesFor_subset s c.plain kind inside

theorem foundation_notMem_needs (dart : s.flutter = false) :
    foundationLibrary ∉ st.needs selector := by
  intro member
  obtain ⟨kind, -, inside⟩ := List.mem_flatMap.mp member
  cases kind with
  | constructor =>
      have inside : foundationLibrary ∈ if (ConstructorPlan.ofClass s.style c.plain).needsMeta then
          [metaLibrary] else [] :=
        inside
      split at inside
      · exact absurd inside (by decide +kernel)
      · cases inside
  | equality =>
      obtain ⟨helper, found, same⟩ := Option.map_eq_some_iff.mp (Option.mem_toList.mp inside)
      rw [library_of_dart (dart ▸ found)] at same
      exact absurd same (by decide +kernel)
  | toJson | fromJson | props => exact absurd inside (by decide +kernel : foundationLibrary ∉ [_])
  | copyWith | toMap | fromMap | toString | hashCode => cases inside

theorem asked_run : (st.run selector).asked selector = st.asked selector := by
  have extended : (st.run selector).extended =
      (st.extended || (st.asked selector).contains .props) := rfl
  have asked := kindsFor_headerParts s.style c.name
  rw [Stage.asked, extended, asked, Stage.asked, asked]
  cases selector with
  | some kind => rfl
  | none =>
      have props : (MemberKind.all.filter
        (s.style.enables (s.style.usesEquatable || st.extended))).contains .props =
          (s.style.usesEquatable || st.extended) := by
        rw [Bool.eq_iff_iff, List.contains_iff_mem, List.mem_filter]
        exact ⟨fun h => h.2, fun h => ⟨by decide, h⟩⟩
      dsimp only
      rw [props]
      cases s.style.usesEquatable <;> cases st.extended <;> rfl

end Stage

/-! ## Slashes -/

theorem ClassText.noSlash_methodLines {s : Surroundings} {c : ClassText} {kind : MemberKind}
    (ind : IsIndent s.indent) (method : kind ≠ .constructor) :
    ∀ line ∈ c.methodLines s kind, '/' ∉ line := by
  obtain ⟨first, more, sheet⟩ := c.exists_sheet s ind method
  have level : '/' ∉ s.indent := noSlash_of_light ind.light
  intro line member
  rw [c.methodLines_eq ind sheet] at member
  rcases List.mem_append.mp member with member | member
  · split at member
    · rw [List.mem_singleton.mp member, List.mem_append, not_or]
      exact ⟨level, by decide⟩
    · cases member
  · obtain ⟨old, inside, rfl⟩ := List.mem_map.mp member
    rw [indented]
    split
    · exact sheet.noSlash old inside
    · rw [List.mem_append, not_or]
      exact ⟨level, sheet.noSlash old inside⟩

namespace Stage

variable {s : Surroundings} {c : ClassText} (st : Stage s c)

theorem noSlash_front : ∀ line ∈ st.frame.front, '/' ∉ line := by
  intro line member
  rcases List.mem_cons.mp member with rfl | member
  · exact notMem_headerLine c.isIdentifier _ (by decide) (by decide)
  · rcases List.mem_append.mp member with member | member
    · obtain ⟨f, -, rfl⟩ := List.mem_map.mp member
      exact f.notMem_line (by decide) (by decide)
    · cases written : st.frame.ctor with
      | none => simp [written, ctorPart] at member
      | some ls =>
          obtain ⟨forms, -, rfl⟩ := Option.map_eq_some_iff.mp written
          rw [written, ctorPart] at member
          rcases List.mem_cons.mp member with rfl | member
          · simp
          · exact c.notMem_ctorLines forms st.isIndent (by decide) line member

theorem noSlash_run (bare : ∀ line ∈ st.methods, '/' ∉ line) (selector : Option MemberKind) :
    ∀ line ∈ (st.run selector).methods, '/' ∉ line := by
  intro line member
  rcases List.mem_append.mp member with member | member
  · exact bare line member
  · cases missing : st.missing (kindsFor s.style (headerParts c.name st.extended) selector) with
    | nil =>
        rw [missing] at member
        cases member
    | cons kind rest =>
        rw [missing] at member
        rcases List.mem_cons.mp member with rfl | member
        · simp
        · obtain ⟨written, inside, member⟩ := List.mem_flatMap.mp member
          rw [← missing] at inside
          exact ClassText.noSlash_methodLines st.isIndent (st.mem_missing.mp inside).2.1 line member

end Stage

/-! ## Rows -/

namespace Row

variable {s : Surroundings}

/-- The libraries that the members of a run call. -/
def needs (request : Request) (row : Row s) : List LibraryNeed :=
  if request.named row.cls.plain then row.stage.needs request.selector else []

theorem cls_run (request : Request) (row : Row s) : (row.run request).cls = row.cls := by
  rw [Row.run]
  split <;> rfl

theorem noSlash_lines (row : Row s) (bare : ∀ line ∈ row.stage.methods, '/' ∉ line) :
    ∀ line ∈ row.lines, '/' ∉ line := by
  intro line member
  rcases List.mem_append.mp member with member | member
  · rcases List.mem_append.mp member with member | member
    · exact row.stage.noSlash_front line member
    · rcases List.mem_append.mp member with member | member
      · exact bare line member
      · rw [List.mem_singleton.mp member]
        decide
  · intro slash
    have blank := List.all_eq_true.mp (row.isGap line member).1 _ slash
    exact absurd blank (by decide)

end Row

theorem flatMap_needsFor {s : Surroundings} (request : Request) (rows : List (Row s))
    (lineNo : Nat) :
    ((rowDecls lineNo rows).filter fun c => request.named c && c.isValid).flatMap
    (needsFor s request.selector) =
      rows.flatMap (Row.needs request) := by
  induction rows generalizing lineNo with
  | nil => rfl
  | cons row rest ih =>
      rw [rowDecls, List.filter_cons, named_decl, List.flatMap_cons,
        ← ih (lineNo + row.lines.length), Row.needs]
      split
      · rw [List.flatMap_cons, Stage.needsFor_decl]
      · rfl

theorem filter_rowDecls_ne_nil {s : Surroundings} (request : Request) (rows : List (Row s))
    (lineNo : Nat) :
    ((rowDecls lineNo rows).filter fun c => request.named c && c.isValid) ≠ [] ↔
      ∃ row ∈ rows, request.named row.cls.plain := by
  induction rows generalizing lineNo with
  | nil => simp [rowDecls]
  | cons row rest ih =>
      rw [rowDecls, List.filter_cons, named_decl, List.exists_mem_cons_iff,
        ← ih (lineNo + row.lines.length)]
      split
      · rename_i named
        simp [named]
      · rename_i other
        simp [other]

/-! ## Pages -/

structure Page (s : Surroundings) (packageName : Option Text) where
  libs : List LibraryNeed
  gap : List Text
  rows : List (Row s)
  known : libs ⊆ memberLibraries
  plain : s.flutter = false → foundationLibrary ∉ libs
  isGap : IsGap gap
  nonempty : rows ≠ []

/-- A request that writes with the given surroundings. -/
structure Fits (request : Request) (s : Surroundings) (packageName : Option Text) : Prop where
  indent : request.style.indent? = .ok s.indent
  surroundings : request.ownSurroundings s.indent = s
  package : request.project.packageName = packageName

namespace Page

variable {s : Surroundings} {packageName : Option Text} (p : Page s packageName) {request : Request}

def lines : List Text :=
  topLines packageName p.libs p.gap ++ rowLines p.rows

def classes : List ClassText :=
  p.rows.map (·.cls)

/-- The libraries that the members of a run call. -/
def needs (request : Request) : List LibraryNeed :=
  p.rows.flatMap (Row.needs request)

/-- The page once a run has written the members that it is asked for. -/
def run (request : Request) : Page s packageName where
  libs := p.libs ++ p.needs request
  gap := p.gap
  rows := p.rows.map (Row.run request)
  known := by
    refine List.append_subset.mpr ⟨p.known, fun need member => ?_⟩
    obtain ⟨row, -, inside⟩ := List.mem_flatMap.mp member
    rw [Row.needs] at inside
    split at inside
    · exact row.stage.needs_subset _ inside
    · cases inside
  plain := by
    intro dart member
    rcases List.mem_append.mp member with member | member
    · exact p.plain dart member
    · obtain ⟨row, -, inside⟩ := List.mem_flatMap.mp member
      rw [Row.needs] at inside
      split at inside
      · exact row.stage.foundation_notMem_needs _ dart inside
      · cases inside
  isGap := p.isGap
  nonempty := by simpa using p.nonempty

theorem classes_run : (p.run request).classes = p.classes := by
  rw [classes, run, List.map_map]
  exact List.map_congr_left fun row _ => row.cls_run request

theorem trim_gap : ∀ line ∈ p.gap, line.trim = [] :=
  fun line member => Text.trim_of_isBlankText (p.isGap line member).1

theorem opens_rowLines : ∀ line more, rowLines p.rows = line :: more → Header.isHeader line := by
  intro line more same
  obtain ⟨row, rest, rows⟩ := List.exists_cons_of_ne_nil p.nonempty
  rw [rows, rowLines_cons] at same
  cases same
  exact isHeader_headerLine row.cls.isIdentifier _

theorem isHeader_topLines :
    ∀ line ∈ topLines packageName p.libs p.gap, Header.isHeader line = false := by
  intro line member
  rw [topLines] at member
  split at member
  · exact isHeader_gap p.isGap line member
  · rename_i some
    rw [lines_ofLibraries p.known (by simpa using some)] at member
    rcases List.mem_append.mp member with member | member
    · rcases mem_spaced member with rfl | member
      · exact isHeader_of_blank rfl
      · exact isHeader_of_directive
          (isEntry_groups (isEntry_ofLibraries p.known) line member).directive
    · rcases List.mem_cons.mp member with rfl | member
      · exact isHeader_of_blank rfl
      · exact isHeader_gap p.isGap line member

variable {text : Text} (here : text.lines = p.lines)

include here

theorem scan_eq : scan text = rowDecls ((topLines packageName p.libs p.gap).length + 1) p.rows := by
  rw [scan, here, lines, scanFrom_passed p.isHeader_topLines, scanFrom_rowLines, Nat.add_comm]

theorem targets_eq :
    request.targets text = (rowDecls ((topLines packageName p.libs p.gap).length + 1) p.rows).filter
    fun c => request.named c && c.isValid := by
  rw [Request.targets, List.filter_filter, p.scan_eq here]
  exact List.filter_congr fun c _ => Bool.and_comm _ _

theorem ofText_eq : ofText text packageName =
    { source := text, packageName
      values := (ofLibraries packageName p.libs).groups.flatten
      written := (ofLibraries packageName p.libs).groups.flatten
      block := if p.libs.isEmpty then none
        else some (0, (ofLibraries packageName p.libs).formatted.lines.length - 1) } :=
  ofText_topLines p.known p.trim_gap p.opens_rowLines here

/-- The libraries of a page do not tell another flavor. -/
theorem surroundings_eq (fits : Fits request s packageName) :
    request.surroundings text s.indent = s := by
  have same : ((request.project.resolve (ofText text packageName).values).flavor == .flutter) =
      (request.project.flavor == .flutter) := by
    rw [Project.resolve]
    split
    · rename_i auto
      have dart : s.flutter = false := by
        rw [← fits.surroundings, Request.ownSurroundings, auto]
        rfl
      have foreign : ∀ need ∈ memberLibraries, need ≠ foundationLibrary →
          (importLine need.path).has "package:flutter/" = false := by decide +kernel
      have none :
          ((ofText text packageName).values.any fun line => line.has "package:flutter/") =
            false := by
        rw [List.any_eq_false, p.ofText_eq here]
        intro line member
        obtain ⟨need, inside, rfl⟩ :=
          mem_libraryLines.mp ((Imports.isGrouped_groups _).mem_iff line |>.mp member)
        rw [foreign need (p.known inside) fun same => p.plain dart (same ▸ inside)]
        simp
      rw [auto, none]
      rfl
    · rfl
  conv_rhs => rw [← fits.surroundings]
  rw [Request.surroundings, Request.ownSurroundings, fits.package, same]

theorem pending_eq (fits : Fits request s packageName) : request.pending text s.indent =
    ((ofText text packageName).requireAll (p.needs request),
      (request.targets text).map (draftFor s request.selector)) := by
  rw [Request.pending_eq, p.surroundings_eq here fits, fits.package]
  conv_lhs => rw [p.targets_eq here, flatMap_needsFor]
  rw [p.targets_eq here]
  rfl

theorem targets_ne_nil : request.targets text ≠ [] ↔ ∃ c ∈ p.classes, request.named c.plain := by
  rw [p.targets_eq here, filter_rowDecls_ne_nil]
  simp only [classes, List.mem_map, exists_exists_and_eq_and]

/-- A run on a page gives the page with the members that it is asked for. -/
theorem lines_run (fits : Fits request s packageName)
    (bare : ∀ row ∈ p.rows, ∀ line ∈ row.stage.methods, '/' ∉ line) {g : Generated}
    (ok : request.unattended text = .ok g) : g.code.lines = (p.run request).lines := by
  obtain ⟨-, indent, style, rfl⟩ := Request.unattended_eq_ok.mp ok
  cases fits.indent.symm.trans style
  -- libraries that hand on others are looked for in the whole text, and their paths have slashes
  have noSlash : ∀ line ∈ rowLines p.rows, '/' ∉ line := by
    intro line member
    obtain ⟨row, inside, member⟩ := List.mem_flatMap.mp member
    exact row.noSlash_lines (bare row inside) line member
  have whole : ∀ line ∈ rowLines p.rows, '\n' ∉ line := by
    intro line member
    refine @Text.notMem_of_mem_lines text line ?_
    rw [here]
    exact List.mem_append_right _ member
  have asked : p.needs request ⊆ memberLibraries := (List.append_subset.mp (p.run request).known).2
  have drafts : DraftsOf text ((request.targets text).map (draftFor s request.selector)) := by
    refine ⟨_, Request.targets_sublist,
      List.forall₂_map_left_iff.mpr (List.forall₂_same.mpr fun c _ => ?_)⟩
    exact (alike_draftFor s request.selector c).body
  have plan := @bottomUp_requireAll text packageName (p.needs request) _ drafts
  have edited := edited_rowLines request whole (topLines packageName p.libs p.gap)
  have top := edited_topLines p.known asked p.trim_gap p.opens_rowLines noSlash here
  rw [Request.written, p.pending_eq here fits]
  show (LineEdit.applyAll (planEdits _ _) text).lines = _
  -- edits apply from the bottom to the top: all rows, and then the block above them
  rw [LineEdit.lines_applyAll, LineEdit.bottomUp_eq_self plan.descending, planEdits,
    List.foldl_append, here, p.targets_eq here, lines, edited, top]
  rfl

end Page

end Fresh

end ValueClass
