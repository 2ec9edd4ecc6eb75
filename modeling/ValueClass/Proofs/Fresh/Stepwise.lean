import ValueClass.Proofs.Fresh.Settled

/-! # One member at a time

Writing the members of a fresh buffer in one run, or kind by kind with a run for each, gives
the same classes with the same members in the same order, below the same imports. A run
sets what it appends off by a blank line, so with a run for each kind there is one above
every method, and with one run only above the first.
-/

namespace ValueClass

open Dart Dart.Line Dart.Imports

/-- The code that is reached by a run for each kind, each on the code of the run before. -/
def Request.oneByOne (request : Request) : List MemberKind → Text → Except GenerateError Text
  | [], text => .ok text
  | kind :: rest, text => do
    let g ← { request with selector := some kind }.unattended text
    request.oneByOne rest g.code

namespace Fresh

/-! ## Classes -/

/-- The lines of a class with members of some kinds, where the methods have the given lines. -/
def ClassText.linesWith (s : Surroundings) (c : ClassText) (kinds : List MemberKind)
    (methods : List Text) : List Text :=
  headerLine c.name (kinds.contains .props) :: (c.fields.map (·.line) ++
    ((if kinds.contains .constructor then [] :: c.ctorLines
      (.next s.style none) s.indent else []) ++
      (methods ++ ["\x7d".toList])))

/-- The lines of some methods, each below a blank line. -/
def ClassText.spreadLines (s : Surroundings) (c : ClassText) (kinds : List MemberKind) :
    List Text :=
  kinds.flatMap fun kind => [] :: c.methodLines s kind

def methodsOf (kinds : List MemberKind) : List MemberKind :=
  kinds.filter fun kind => kind ≠ .constructor

namespace Stage

variable {s : Surroundings} {c : ClassText} (st : Stage s c)

theorem lines_eq_linesWith {kinds : List MemberKind}
    (extended : st.extended = kinds.contains .props)
    (hasCtor : st.hasCtor = kinds.contains .constructor) :
    st.lines = c.linesWith s kinds st.methods := by
  have ctor : ctorPart st.frame.ctor =
      if kinds.contains .constructor then [] :: c.ctorLines
        (.next s.style none) s.indent else [] := by
    rw [ctor_frame, hasCtor]
    cases kinds.contains .constructor <;> rfl
  have header : st.frame.extended = kinds.contains .props := extended
  rw [lines, Grown.front, ctor, header, ClassText.linesWith, List.cons_append, List.append_assoc]

def runs (kinds : List MemberKind) : Stage s c :=
  kinds.foldl (fun st kind => st.run (some kind)) st

theorem asked_some (kind : MemberKind) : st.asked (some kind) = [kind] :=
  kindsFor_headerParts s.style c.name st.extended (some kind)

theorem missing_singleton {kind : MemberKind} (absent : kind ∉ st.kinds) :
    st.missing [kind] = methodsOf [kind] := by
  refine List.filter_congr fun other member => ?_
  rw [List.mem_singleton.mp member]
  simp [absent]

theorem run_some {kind : MemberKind} (absent : kind ∉ st.kinds) :
    (st.run (some kind)).extended = (st.extended || [kind].contains .props) ∧
      (st.run (some kind)).hasCtor = (st.hasCtor || [kind].contains .constructor) ∧
      (st.run (some kind)).kinds = st.kinds ++ methodsOf [kind] ∧
      (st.run (some kind)).methods = st.methods ++ c.spreadLines s (methodsOf [kind]) := by
  have single : c.appendedLines s (methodsOf [kind]) = c.spreadLines s (methodsOf [kind]) := by
    cases kind <;> rfl
  rw [← single, ← st.missing_singleton absent, ← st.asked_some kind]
  exact ⟨rfl, rfl, rfl, rfl⟩

/-- What the runs leave, for kinds that are not there yet. -/
theorem runs_eq {kinds : List MemberKind} (once : kinds.Nodup)
    (absent : ∀ kind ∈ kinds, kind ∉ st.kinds) :
    (st.runs kinds).extended = (st.extended || kinds.contains .props) ∧
      (st.runs kinds).hasCtor = (st.hasCtor || kinds.contains .constructor) ∧
      (st.runs kinds).methods = st.methods ++ c.spreadLines s (methodsOf kinds) := by
  induction kinds generalizing st with
  | nil => simp [runs, ClassText.spreadLines, methodsOf]
  | cons kind rest ih =>
      obtain ⟨first, once⟩ := List.nodup_cons.mp once
      obtain ⟨extended, hasCtor, kinds, methods⟩ := st.run_some (absent kind (by simp))
      have others : ∀ other ∈ rest, other ∉ (st.run (some kind)).kinds := by
        intro other member
        rw [kinds, List.mem_append, not_or]
        refine ⟨absent other (List.mem_cons_of_mem _ member), fun inside => ?_⟩
        have same : other = kind := List.mem_singleton.mp (List.mem_filter.mp inside).1
        exact first (same ▸ member)
      have split : methodsOf (kind :: rest) = methodsOf [kind] ++
          methodsOf rest := List.filter_append [kind] rest
      obtain ⟨extended', hasCtor', methods'⟩ := ih (st.run (some kind)) once others
      have step : st.runs (kind :: rest) = (st.run (some kind)).runs rest := rfl
      rw [step, extended', hasCtor', methods', extended, hasCtor, methods, split]
      refine ⟨?_, ?_, ?_⟩
      · rw [Bool.or_assoc, ← List.contains_append]
        rfl
      · rw [Bool.or_assoc, ← List.contains_append]
        rfl
      · rw [List.append_assoc, ClassText.spreadLines, ClassText.spreadLines, ClassText.spreadLines,
          List.flatMap_append]

end Stage

/-! ## Pages -/

namespace Row

variable {s : Surroundings}

def runs (request : Request) (kinds : List MemberKind) (row : Row s) : Row s :=
  kinds.foldl (fun row kind => row.run { request with selector := some kind }) row

theorem runs_eq {request : Request} {kinds : List MemberKind} {row : Row s}
    (named : request.named row.cls.plain) :
    row.runs request kinds = { row with stage := row.stage.runs kinds } := by
  induction kinds generalizing row with
  | nil => rfl
  | cons kind rest ih =>
      have step : row.run { request with selector := some kind } =
          { row with stage := row.stage.run (some kind) } := if_pos named
      rw [runs, List.foldl_cons, ← runs, step]
      exact ih named

theorem bare_run {row : Row s} (bare : ∀ line ∈ row.stage.methods, '/' ∉ line) (request : Request) :
    ∀ line ∈ (row.run request).stage.methods, '/' ∉ line := by
  by_cases named : request.named row.cls.plain
  · rw [Row.run, if_pos named]
    exact row.stage.noSlash_run bare request.selector
  · rw [Row.run, if_neg named]
    exact bare

end Row

namespace Page

variable {s : Surroundings} {packageName : Option Text} (p : Page s packageName) {request : Request}

def runs (request : Request) (kinds : List MemberKind) : Page s packageName :=
  kinds.foldl (fun p kind => p.run { request with selector := some kind }) p

theorem rows_runs (kinds : List MemberKind) :
    (p.runs request kinds).rows = p.rows.map (Row.runs request kinds) := by
  induction kinds generalizing p with
  | nil => exact (List.map_id _).symm
  | cons kind rest ih =>
      have step : p.runs request (kind :: rest) =
          (p.run { request with selector := some kind }).runs request rest := rfl
      rw [step, ih, run, List.map_map]
      rfl

theorem gap_runs (kinds : List MemberKind) : (p.runs request kinds).gap = p.gap := by
  induction kinds generalizing p with
  | nil => rfl
  | cons kind rest ih => exact ih (p.run { request with selector := some kind })

theorem mem_needs {need : LibraryNeed} :
    need ∈ p.needs request ↔ ∃ row ∈ p.rows, request.named row.cls.plain ∧
    ∃ kind ∈ row.stage.asked request.selector, need ∈ librariesFor s row.cls.plain kind := by
  rw [needs, List.mem_flatMap]
  refine exists_congr fun row => and_congr_right fun _ => ?_
  rw [Row.needs]
  split
  · rename_i named
    rw [Stage.needs, List.mem_flatMap]
    simp only [named, true_and]
  · rename_i other
    simp [other]

theorem mem_libs_runs (kinds : List MemberKind) {need : LibraryNeed} :
    need ∈ (p.runs request kinds).libs ↔ need ∈ p.libs ∨
    ∃ kind ∈ kinds, ∃ c ∈ p.classes, request.named c.plain ∧
      need ∈ librariesFor s c.plain kind := by
  induction kinds generalizing p with
  | nil => simp [runs]
  | cons kind rest ih =>
      have step : p.runs request (kind :: rest) =
          (p.run { request with selector := some kind }).runs request rest := rfl
      have first : need ∈ p.needs { request with selector := some kind } ↔
          ∃ c ∈ p.classes, request.named c.plain ∧ need ∈ librariesFor s c.plain kind := by
        rw [mem_needs]
        simp only [classes, List.mem_map, exists_exists_and_eq_and, Stage.asked_some,
          List.mem_singleton, exists_eq_left]
        rfl
      have libs : (p.run { request with selector := some kind }).libs =
          p.libs ++ p.needs { request with selector := some kind } :=
        rfl
      rw [step, ih, p.classes_run, libs, List.mem_append, first, or_assoc, List.exists_mem_cons_iff]

theorem oneByOne_eq (kinds : List MemberKind) {text : Text} (here : text.lines = p.lines)
    (fits : Fits request s packageName)
    (bare : ∀ row ∈ p.rows, ∀ line ∈ row.stage.methods, '/' ∉ line)
    (named : ∃ c ∈ p.classes, request.named c.plain) :
    ∃ code, request.oneByOne kinds text = .ok code ∧ code.lines = (p.runs request kinds).lines := by
  induction kinds generalizing p text with
  | nil => exact ⟨text, rfl, here⟩
  | cons kind rest ih =>
      have fits' : Fits { request with selector := some kind } s packageName :=
        ⟨fits.indent, fits.surroundings, fits.package⟩
      have ok := p.unattended_eq_ok here fits' named
      have written := p.lines_run here fits' bare ok
      obtain ⟨code, reached, lines⟩ := ih (p.run { request with selector := some kind }) written (by
        intro row member
        obtain ⟨old, inside, rfl⟩ := List.mem_map.mp member
        exact Row.bare_run (bare old inside) _) (by rwa [p.classes_run])
      refine ⟨code, ?_, lines⟩
      rw [Request.oneByOne, ok]
      exact reached

end Page

/-! ## Fresh buffers -/

/-- The kinds that a style enables for a fresh class. -/
def enabledKinds (style : Style) : List MemberKind :=
  MemberKind.all.filter (style.enables style.usesEquatable)

theorem asked_start {s : Surroundings} {row : Row s} (start : row.IsStart) :
    row.stage.asked none = enabledKinds s.style := by
  obtain ⟨ind, unhashed, same⟩ := start
  rw [same, Stage.asked, kindsFor_headerParts]
  show MemberKind.all.filter (s.style.enables (s.style.usesEquatable || false)) = _
  rw [Bool.or_false]
  rfl

section Start

variable {s : Surroundings} {row : Row s} {request : Request}

/-- One run sets the methods off by one blank line. -/
theorem lines_run_start (start : row.IsStart) (named : request.named row.cls.plain)
    (all : request.selector = none) :
    (row.run request).lines = row.cls.linesWith s (enabledKinds s.style)
      (row.cls.appendedLines s (methodsOf (enabledKinds s.style))) ++ row.gap := by
  have asked := asked_start start
  obtain ⟨ind, unhashed, same⟩ := start
  have missing : row.stage.missing (row.stage.asked none) = methodsOf (enabledKinds s.style) := by
    rw [asked, same]
    refine List.filter_congr fun kind _ => ?_
    simp [ClassText.start]
  have extended : (row.stage.run none).extended = (enabledKinds s.style).contains .props := by
    show (row.stage.extended || (row.stage.asked none).contains .props) = _
    rw [asked, same]
    rfl
  have hasCtor : (row.stage.run none).hasCtor = (enabledKinds s.style).contains .constructor := by
    show (row.stage.hasCtor || (row.stage.asked none).contains .constructor) = _
    rw [asked, same]
    rfl
  have methods : (row.stage.run none).methods = row.cls.appendedLines s
      (methodsOf (enabledKinds s.style)) := by
    show row.stage.methods ++ row.cls.appendedLines s (row.stage.missing (row.stage.asked none)) = _
    rw [missing, same]
    rfl
  rw [Row.run, if_pos named, Row.lines, all, Stage.lines_eq_linesWith _ extended hasCtor, methods]

theorem lines_runs_start (start : row.IsStart) (named : request.named row.cls.plain)
    {kinds : List MemberKind} (once : kinds.Nodup) : (row.runs request kinds).lines =
      row.cls.linesWith s kinds (row.cls.spreadLines s (methodsOf kinds)) ++ row.gap := by
  obtain ⟨ind, unhashed, same⟩ := start
  have absent : ∀ kind ∈ kinds, kind ∉ row.stage.kinds := by
    rw [same]
    simp [ClassText.start]
  obtain ⟨extended, hasCtor, methods⟩ := row.stage.runs_eq once absent
  have extended : (row.stage.runs kinds).extended = kinds.contains .props := by
    rw [extended, same]
    rfl
  have hasCtor : (row.stage.runs kinds).hasCtor = kinds.contains .constructor := by
    rw [hasCtor, same]
    rfl
  have methods : (row.stage.runs kinds).methods = row.cls.spreadLines s (methodsOf kinds) := by
    rw [methods, same]
    rfl
  rw [Row.runs_eq named, Row.lines, Stage.lines_eq_linesWith _ extended hasCtor, methods]

end Start

section Solid

variable {s : Surroundings} {c : ClassText}

def solidLines (ls : List Text) : List Text :=
  ls.filter fun line => !line.isBlankText

theorem solidLines_append (a b : List Text) : solidLines (a ++ b) = solidLines a ++ solidLines b :=
  List.filter_append a b

theorem solidLines_flatMap {α : Type} (f : α → List Text) (rows : List α) :
    solidLines (rows.flatMap f) = rows.flatMap fun row => solidLines (f row) :=
  List.filter_flatMap

theorem solidLines_blank (ls : List Text) : solidLines ([] :: ls) = solidLines ls := rfl

theorem solidLines_spreadLines (kinds : List MemberKind) :
    solidLines (c.spreadLines s kinds) = solidLines (c.appendedLines s kinds) := by
  have spread : solidLines (c.spreadLines s kinds) =
      solidLines (kinds.flatMap (c.methodLines s)) := by
    induction kinds with
    | nil => rfl
    | cons kind rest ih =>
        rw [ClassText.spreadLines, List.flatMap_cons, List.flatMap_cons, solidLines_append,
          solidLines_append, solidLines_blank, ← ClassText.spreadLines, ih]
  rw [spread]
  cases kinds <;> rfl

theorem solidLines_linesWith {kinds : List MemberKind} {a b : List Text}
    (same : solidLines a = solidLines b) :
    solidLines (c.linesWith s kinds a) = solidLines (c.linesWith s kinds b) := by
  have cons : ∀ (line : Text) (ls : List Text), solidLines (line :: ls) = solidLines [line] ++
      solidLines ls :=
    fun line ls => solidLines_append [line] ls
  rw [ClassText.linesWith, ClassText.linesWith, cons, cons _ (_ ++ (_ ++ (b ++ _)))]
  simp only [solidLines_append, same]

end Solid

namespace Page

variable {s : Surroundings} {packageName : Option Text} {p : Page s packageName} {request : Request}

theorem topLines_runs_start (starts : ∀ row ∈ p.rows, row.IsStart) (all : request.selector = none) :
    topLines packageName (p.runs request (enabledKinds s.style)).libs p.gap = topLines packageName
      (p.run request).libs p.gap := by
  have libs : ∀ need, need ∈ (p.runs request (enabledKinds s.style)).libs ↔
      need ∈ (p.run request).libs := by
    intro need
    have one : (p.run request).libs = p.libs ++ p.needs request := rfl
    rw [one, List.mem_append, p.mem_needs, p.mem_libs_runs, all]
    refine or_congr_right ?_
    constructor
    · rintro ⟨kind, enabled, c, member, named, inside⟩
      obtain ⟨row, listed, rfl⟩ := List.mem_map.mp member
      exact ⟨row, listed, named, kind, (asked_start (starts row listed)).symm ▸ enabled, inside⟩
    · rintro ⟨row, listed, named, kind, asked, inside⟩
      exact ⟨kind, asked_start (starts row listed) ▸ asked, row.cls, List.mem_map_of_mem listed,
        named, inside⟩
  refine topLines_congr fun line => ?_
  simp only [mem_libraryLines, libs]

theorem lines_run_start (starts : ∀ row ∈ p.rows, row.IsStart)
    (named : ∀ c : ClassText, request.named c.plain) (all : request.selector = none) :
    (p.run request).lines = topLines packageName (p.run request).libs p.gap ++
      p.rows.flatMap fun row => row.cls.linesWith s (enabledKinds s.style)
        (row.cls.appendedLines s (methodsOf (enabledKinds s.style))) ++ row.gap := by
  have rows : rowLines (p.rows.map (Row.run request)) = p.rows.flatMap fun row =>
      (row.run request).lines :=
    List.flatMap_map ..
  show _ ++ rowLines (p.rows.map (Row.run request)) = _
  rw [rows]
  refine congrArg _ (List.flatMap_congr fun row member => ?_)
  exact Fresh.lines_run_start (starts row member) (named row.cls) all

theorem lines_runs_start (starts : ∀ row ∈ p.rows, row.IsStart)
    (named : ∀ c : ClassText, request.named c.plain) {kinds : List MemberKind}
    (once : kinds.Nodup) :
    (p.runs request kinds).lines = topLines packageName (p.runs request kinds).libs p.gap ++
      p.rows.flatMap fun row => row.cls.linesWith s kinds
        (row.cls.spreadLines s (methodsOf kinds)) ++ row.gap := by
  have rows : rowLines (p.runs request kinds).rows = p.rows.flatMap fun row =>
      (row.runs request kinds).lines := by
    rw [p.rows_runs]
    exact List.flatMap_map ..
  rw [Page.lines, rows, p.gap_runs]
  refine congrArg _ (List.flatMap_congr fun row member => ?_)
  exact Fresh.lines_runs_start (starts row member) (named row.cls) once

end Page

/-- All members in one run and one member at a time give the same lines, but for blank lines
    above the methods. -/
theorem unattended_oneByOne (b : Buffer) (unhashed : ∀ part ∈ b.classes, part.2.Unhashed)
    (style : Style) (project : Project) {indent : Text} (usable : style.indent? = .ok indent) :
    let request : Request := { style, project }
    let s := request.ownSurroundings indent
    let kinds := enabledKinds style
    (∀ c ∈ scan b.text, kindsFor style c.header none = kinds) ∧
      ∃ (g : Generated) (code : Text) (top : List Text) (rows : List (ClassText × List Text)),
        request.unattended b.text = .ok g ∧ request.oneByOne kinds b.text = .ok code ∧
        rows.map Prod.fst = b.classes.map Prod.snd ∧ (∀ row ∈ rows, IsGap row.2) ∧
        g.code.lines = top ++ rows.flatMap (fun row =>
          row.1.linesWith s kinds (row.1.appendedLines s (methodsOf kinds)) ++ row.2) ∧
        code.lines = top ++ rows.flatMap (fun row =>
          row.1.linesWith s kinds (row.1.spreadLines s (methodsOf kinds)) ++ row.2) ∧
        solidLines code.lines = solidLines g.code.lines := by
  intro request s kinds
  have fits : Fits request s project.packageName := fits_ownSurroundings request usable
  obtain ⟨p, here, -, classes, starts⟩ :=
    b.exists_page (s := s) (isIndent_of_indent? usable) unhashed project.packageName
  have named : ∀ c : ClassText, request.named c.plain := fun _ => rfl
  have some : ∃ c ∈ p.classes, request.named c.plain := by
    obtain ⟨row, rest, rows⟩ := List.exists_cons_of_ne_nil p.nonempty
    exact ⟨row.cls, by simp [Page.classes, rows], named _⟩
  have bare : ∀ row ∈ p.rows, ∀ line ∈ row.stage.methods, '/' ∉ line :=
    fun row member => (starts row member).bare
  have once : kinds.Nodup := List.Nodup.filter _ (by decide)
  have ok := p.unattended_eq_ok here fits some
  obtain ⟨code, reached, stepwise⟩ := p.oneByOne_eq kinds here fits bare some
  have batch : (request.written b.text indent).code.lines =
      topLines project.packageName (p.run request).libs p.gap ++
      p.rows.flatMap fun row => row.cls.linesWith s kinds
        (row.cls.appendedLines s (methodsOf kinds)) ++ row.gap :=
    (p.lines_run here fits bare ok).trans (Page.lines_run_start starts named rfl)
  have top : topLines project.packageName (p.runs request kinds).libs p.gap =
      topLines project.packageName (p.run request).libs p.gap := Page.topLines_runs_start starts rfl
  rw [Page.lines_runs_start starts named once, top] at stepwise
  refine ⟨?_, request.written b.text indent, code,
    topLines project.packageName (p.run request).libs p.gap,
    p.rows.map fun row => (row.cls, row.gap), ok, reached, ?_, ?_, ?_, ?_, ?_⟩
  · intro c listed
    rw [p.scan_eq here] at listed
    obtain ⟨above, row, below, rows, rfl⟩ := exists_row_of_mem listed
    exact asked_start (starts row (by simp [rows]))
  · rw [List.map_map]
    exact classes
  · intro part member
    obtain ⟨row, -, rfl⟩ := List.mem_map.mp member
    exact row.isGap
  · rw [batch, List.flatMap_map]
  · rw [stepwise, List.flatMap_map]
  · rw [batch, stepwise, solidLines_append, solidLines_append, solidLines_flatMap,
      solidLines_flatMap]
    refine congrArg _ (List.flatMap_congr fun row _ => ?_)
    rw [solidLines_append, solidLines_append, solidLines_linesWith (solidLines_spreadLines _)]

/-- The members of the sample that need no library. -/
theorem unattended_oneByOne_sample :
    let style : Style :=
      { writesToMap := false, writesFromMap := false,
        writesToJson := false, writesFromJson := false }
    ∃ g code, ({ style } : Request).unattended sampleBuffer.text = .ok g ∧
      ({ style } : Request).oneByOne (enabledKinds style) sampleBuffer.text = .ok code ∧
      solidLines code.lines = solidLines g.code.lines := by
  intro style
  obtain ⟨-, g, code, top, rows, batch, stepwise, -, -, -, -, same⟩ :=
    @unattended_oneByOne sampleBuffer unhashed_sampleBuffer style {} "  " rfl
  exact ⟨g, code, batch, stepwise, same⟩

/-- Two runs set both methods off by a blank line, one run only the first. -/
theorem oneByOne_differs :
    let style : Style :=
      { writesConstructor := false, writesCopyWith := false,
        writesToMap := false, writesFromMap := false
        writesToJson := false, writesFromJson := false, writesEquality := false }
    (∀ c ∈ scan sampleBuffer.text, kindsFor style c.header none = [.toString, .hashCode]) ∧
      ∃ g code, ({ style } : Request).unattended sampleBuffer.text = .ok g ∧
        ({ style } : Request).oneByOne [.toString, .hashCode] sampleBuffer.text = .ok code ∧
          g.code ≠ code := by
  intro style
  let batch : Text :=
    "class A \x7b\n  final int x;\n\n  @override\n  String toString() => 'A(x: $x)';\n" ++
    "  @override\n  int get hashCode => x.hashCode;\n\x7d\n"
  let stepwise : Text :=
    "class A \x7b\n  final int x;\n\n  @override\n  String toString() => 'A(x: $x)';\n" ++
    "\n  @override\n  int get hashCode => x.hashCode;\n\x7d\n"
  obtain ⟨asked, found, code, reached, apart⟩ :
      (∀ c ∈ scan sampleBuffer.text, kindsFor style c.header none = [.toString, .hashCode]) ∧
      ({ style } : Request).targets sampleBuffer.text ≠ [] ∧
      (({ style } : Request).written sampleBuffer.text "  ").code = batch ∧
      ({ style } : Request).oneByOne [.toString, .hashCode] sampleBuffer.text = .ok stepwise ∧
        batch ≠ stepwise := by
    decide +kernel
  have ok : ({ style } : Request).unattended sampleBuffer.text =
      .ok (({ style } : Request).written sampleBuffer.text "  ") :=
    Request.unattended_eq_ok.mpr ⟨found, _, rfl, rfl⟩
  refine ⟨asked, _, stepwise, ok, reached, ?_⟩
  rw [code]
  exact apart

end Fresh

end ValueClass
