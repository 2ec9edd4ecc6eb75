import ValueClass.Proofs.Fresh.Stands

/-! # Classes in stages

A fresh class that runs with the same settings have written members into: its header may
extend a class, its constructor may be there, and methods of some kinds stand below. A
run adds the members that are missing and leaves those that are there, whatever their
layout.
-/

namespace ValueClass.Fresh

open Dart Dart.Line

structure Stage (s : Surroundings) (c : ClassText) where
  extended : Bool
  hasCtor : Bool
  kinds : List MemberKind
  methods : List Text
  stands : Stands s c kinds methods
  isIndent : IsIndent s.indent
  unhashed : c.Unhashed

namespace Stage

variable {s : Surroundings} {c : ClassText} (st : Stage s c)

/-- The forms of the parameters of the constructor, if it is there. -/
def forms : Option CtorForms :=
  if st.hasCtor then some (.next s.style none) else none

/-- The header, the fields and the constructor. -/
def frame : Grown c where
  extended := st.extended
  forms := st.forms
  indent := s.indent
  tail := []
  isIndent := st.isIndent
  calm := .nil

def lines : List Text :=
  st.frame.front ++ (st.methods ++ ["\x7d".toList])

def decl (lineNo : Nat) : ClassDecl :=
  st.frame.decl lineNo (st.methods ++ ["\x7d".toList]) (some (lineNo + st.lines.length - 1))

/-! ## Reading -/

theorem scanFrom_lines (lineNo : Nat) (previous : Text) (rest : List Text) :
    scanFrom lineNo previous none (st.lines ++ rest) =
      st.decl lineNo :: scanFrom (lineNo + st.lines.length) "\x7d".toList none rest := by
  have shape : st.lines = c.shape st.extended st.frame.ctor st.methods := by
    simp only [lines, Grown.front, ClassText.shape, List.append_assoc, List.cons_append]
    rfl
  have read : st.decl lineNo = c.read st.extended st.frame.ctor st.methods lineNo := by
    rw [ClassText.read, ← shape]
    rfl
  rw [read, shape]
  exact c.scanFrom_shape (fun _ => st.frame.isCtor_ctor) st.stands.quiet lineNo previous rest

theorem shows_decl (lineNo : Nat) : c.Shows st.forms s.indent (st.decl lineNo) :=
  st.frame.shows_decl lineNo _ _

theorem isValid_decl (lineNo : Nat) : (st.decl lineNo).isValid := by
  have fields : (st.decl lineNo).fields.isEmpty = false := by
    have count := length_placed c.fields (lineNo + 1)
    have some : 0 < c.fields.length := List.length_pos_iff.mpr c.nonempty
    show (placed (lineNo + 1) c.fields).isEmpty = false
    rw [List.isEmpty_eq_false_iff, ← List.length_pos_iff]
    omega
  have distinct : ClassDecl.allDistinct (st.decl lineNo).fieldNames := by
    rw [allDistinct_iff, (st.shows_decl lineNo).fieldNames, ClassText.plain_fieldNames]
    exact c.distinct
  rw [ClassDecl.isValid, ClassDecl.issue?, fields, distinct]
  rfl

/-! ## Searching -/

theorem depthBehind_level {ls : List Text} (level : ∀ line ∈ ls, Line.braces line = 0)
    (depth : Int) :
    depthBehind depth ls = depth := by
  induction ls with
  | nil => rfl
  | cons line rest ih =>
      rw [depthBehind_cons, level line (by simp), Int.add_zero,
        ih fun l member => level l (List.mem_cons_of_mem _ member)]

theorem depthBehind_front : depthBehind 0 st.frame.front = 1 := by
  have header : Line.braces (headerLine c.name st.frame.extended) = 1 :=
    (weighs_headerLine c.isIdentifier _).raw
  have fields : ∀ line ∈ c.fields.map (·.line), Line.braces line = 0 := by
    intro line member
    obtain ⟨f, -, rfl⟩ := List.mem_map.mp member
    exact (snippet_light f.light_line).raw
  rw [Grown.front, depthBehind_cons, header, depthBehind_append, depthBehind_level fields]
  cases written : st.frame.ctor with
  | none => rfl
  | some ls =>
      obtain ⟨first, params, last, rfl, -, opening, inside, closing⟩ := st.frame.isCtor_ctor written
      have params : ∀ line ∈ params, Line.braces line = 0 :=
        fun line member => (inside line member).weighs.raw
      rw [ctorPart, depthBehind_cons, depthBehind_cons, opening.weighs.raw, depthBehind_append,
        depthBehind_level params, depthBehind_cons, closing.weighs.raw]
      rfl

variable {kind : MemberKind} {lineNo : Nat}

theorem ink_finder_decl :
    (Method.finder (st.decl lineNo) kind).ink = leadWord c.name kind ++ leadRest kind := by
  have shown := st.shows_decl lineNo
  have name : IsIdentifier (st.decl lineNo).name := shown.name ▸ c.isIdentifier
  rw [ink_finder name (shown.type.trans shown.name.symm), shown.name]

theorem present?_eq (method : kind ≠ .constructor) : present? (st.decl lineNo) kind =
    ClassDecl.findFrom (Text.signature (Method.finder (st.decl lineNo) kind)) 1
      (lineNo + st.frame.front.length)
      (st.methods ++ ["\x7d".toList]) := by
  have unlike : ∀ line ∈ st.frame.front, ¬ (Method.finder (st.decl lineNo) kind).ink <+:
      line.ink := by
    intro line member
    rw [st.ink_finder_decl]
    exact st.frame.unlike_front method line member
  rw [present?_of_method _ method, ← st.depthBehind_front]
  exact ClassDecl.findFrom_append unlike 0 lineNo _

theorem present?_of_notMem (method : kind ≠ .constructor) (missing : kind ∉ st.kinds) :
    present? (st.decl lineNo) kind = none := by
  rw [st.present?_eq method]
  refine ClassDecl.findFrom_eq_none ?_ _ _
  intro line member
  rw [st.ink_finder_decl]
  rcases List.mem_append.mp member with member | member
  · exact st.stands.unlike method missing line member
  · rw [List.mem_singleton.mp member]
    exact unlike_brace method

theorem present?_of_mem (member : kind ∈ st.kinds) (lineNo : Nat) :
    ∃ span, present? (st.decl lineNo) kind = some span ∧
      Text.sameInk span.text (memberText s c.plain kind) := by
  rw [st.present?_eq (st.stands.method member)]
  exact st.stands.find member st.ink_finder_decl _ _

theorem present?_constructor : present? (st.decl lineNo) .constructor = st.forms.map fun forms =>
    { first := lineNo + c.fields.length + 2
      last := lineNo + c.fields.length + 1 + (c.ctorLines forms s.indent).length
      text := Text.unlines (c.ctorLines forms s.indent) } :=
  st.frame.present?_constructor

/-! ## Writing -/

theorem memberText_decl (method : kind ≠ .constructor) :
    memberText s (st.decl lineNo) kind = memberText s c.plain kind := by
  rw [memberText_of_method s _ method, memberText_of_method s _ method,
    ((st.shows_decl lineNo).looksLike st.isIndent).methodText]

theorem constructorText_decl :
    constructorText s (st.decl lineNo) = Text.unlines
      (c.ctorLines (.next s.style none) s.indent) := by
  rw [(st.shows_decl lineNo).constructorText st.isIndent st.isIndent, forms]
  split
  · rw [CtorForms.next_next]
  · rfl

/-- What stands there is not written again. -/
theorem replacementFor?_decl (kind : MemberKind) :
    replacementFor? s (st.decl lineNo) kind = none := by
  rw [replacementFor?]
  by_cases method : kind = .constructor
  · subst method
    rw [present?_constructor, forms]
    split
    · rename_i span here
      split at here
      · cases here
        have same : memberText s (st.decl lineNo) .constructor =
            Text.unlines (c.ctorLines (.next s.style none) s.indent) :=
          st.constructorText_decl
        rw [same]
        exact if_pos (beq_self_eq_true _)
      · cases here
    · rfl
  · by_cases member : kind ∈ st.kinds
    · obtain ⟨span, here, ink⟩ := st.present?_of_mem member lineNo
      rw [here, st.memberText_decl method]
      exact if_pos ink
    · rw [st.present?_of_notMem method member]

/-- The methods among some kinds that are not there. -/
def missing (kinds : List MemberKind) : List MemberKind :=
  kinds.filter fun kind => kind ≠ .constructor && !st.kinds.contains kind

theorem mem_missing {kinds : List MemberKind} :
    kind ∈ st.missing kinds ↔ kind ∈ kinds ∧ kind ≠ .constructor ∧ kind ∉ st.kinds := by
  simp [missing]

theorem missing_cons (kinds : List MemberKind) : st.missing (kind :: kinds) =
    if kind ≠ .constructor && !st.kinds.contains kind then kind :: st.missing kinds
      else st.missing kinds :=
  List.filter_cons

/-- The class with members of some kinds written. -/
def write {kinds : List MemberKind} (once : kinds.Nodup) : Stage s c where
  extended := st.extended || kinds.contains .props
  hasCtor := st.hasCtor || kinds.contains .constructor
  kinds := st.kinds ++ st.missing kinds
  methods := st.methods ++ c.appendedLines s (st.missing kinds)
  stands := by
    refine st.stands.append (stands_appendedLines st.isIndent st.unhashed (once.filter _) ?_) ?_
    · exact fun kind member => (st.mem_missing.mp member).2.1
    · exact fun kind here member => (st.mem_missing.mp member).2.2 here
  isIndent := st.isIndent
  unhashed := st.unhashed

theorem flatMap_appendedFor (kinds : List MemberKind) :
    kinds.flatMap (appendedFor s (st.decl lineNo)) =
      (st.missing kinds).flatMap fun kind => '\n' :: Text.indentBlock s.indent
        (methodText s c.plain kind) := by
  have same := ((st.shows_decl lineNo).looksLike st.isIndent).methodText s
  induction kinds with
  | nil => rfl
  | cons kind rest ih =>
      rw [List.flatMap_cons, ih, missing_cons, appendedFor, same]
      by_cases method : kind = .constructor
      · simp [method]
      · by_cases here : kind ∈ st.kinds
        · obtain ⟨span, found, -⟩ := st.present?_of_mem here lineNo
          simp [found, here]
        · simp [st.present?_of_notMem method here, method, here]

variable {selector : Option MemberKind}

/-- The header once members are written. -/
theorem header_draftFor :
    (if (draftFor s selector (st.decl lineNo)).headerChanged
      then (draftFor s selector (st.decl lineNo)).decl.header.render (headerLine c.name st.extended)
      else headerLine c.name st.extended) =
    headerLine c.name (st.extended ||
      (kindsFor s.style (st.decl lineNo).header selector).contains .props) := by
  have header : (st.decl lineNo).header = headerParts c.name st.extended := rfl
  show (if (headerFor
    { decl := st.decl lineNo } (kindsFor s.style (st.decl lineNo).header selector)).headerChanged
      then (headerFor { decl := st.decl lineNo }
        (kindsFor s.style (st.decl lineNo).header selector)).decl.header.render
        (headerLine c.name st.extended)
      else headerLine c.name st.extended) = _
  rw [headerFor]
  by_cases props : .props ∈ kindsFor s.style (st.decl lineNo).header selector
  · rw [if_pos props, useEquatable_headerParts header, List.contains_iff_mem.mpr props,
      Bool.or_true]
    cases st.extended with
    | true => rfl
    | false => exact render_headerParts c.name
  · have absent : (kindsFor s.style (st.decl lineNo).header selector).contains .props = false := by
      simpa using props
    rw [if_neg props, absent, Bool.or_false]
    rfl

theorem ctor_frame :
    st.frame.ctor = if st.hasCtor then some (c.ctorLines (.next s.style none) s.indent)
      else none := by
  show (if st.hasCtor then some _ else none : Option CtorForms).map _ = _
  cases st.hasCtor <;> rfl

theorem ctorPart_write {kinds : List MemberKind} (once : kinds.Nodup) :
    (if kinds.contains .constructor && !st.hasCtor then [] ::
      c.ctorLines (.next s.style none) s.indent else []) ++
      ctorPart st.frame.ctor = ctorPart (st.write once).frame.ctor := by
  have hasCtor : (st.write once).hasCtor = (st.hasCtor || kinds.contains .constructor) := rfl
  rw [ctor_frame, ctor_frame, hasCtor]
  cases st.hasCtor <;> cases kinds.contains .constructor <;> simp [ctorPart]

theorem noFeed_ctorPart : ∀ line ∈ ctorPart st.frame.ctor, '\n' ∉ line := by
  intro line member
  cases written : st.frame.ctor with
  | none => simp [written, ctorPart] at member
  | some ls =>
      obtain ⟨forms, -, rfl⟩ := Option.map_eq_some_iff.mp written
      rw [written, ctorPart] at member
      rcases List.mem_cons.mp member with rfl | member
      · simp
      · exact c.notMem_ctorLines forms st.isIndent (by decide) line member

theorem noFeed_fields (c : ClassText) : ∀ line ∈ c.fields.map (·.line), '\n' ∉ line := by
  intro line member
  obtain ⟨f, -, rfl⟩ := List.mem_map.mp member
  exact f.notMem_line (by decide) (by decide)

/-- The text of a constructor that goes behind the fields; empty for none. -/
def insertedText (kinds : List MemberKind) : Text :=
  if kinds.contains .constructor && !st.hasCtor then
    '\n' :: Text.unlines (c.ctorLines (.next s.style none) s.indent) else []

/-- The text of the methods that go before the last line; empty for none. -/
def appendedText (kinds : List MemberKind) : Text :=
  (st.missing kinds).flatMap fun kind => '\n' :: Text.indentBlock s.indent
    (methodText s c.plain kind)

theorem lines_insertedText (kinds : List MemberKind) :
    (if (st.insertedText kinds).isEmpty then [] else [st.insertedText kinds]).flatMap Text.lines =
      if kinds.contains .constructor && !st.hasCtor then [] :: c.ctorLines
        (.next s.style none) s.indent else [] := by
  rw [insertedText]
  split
  · rw [if_neg (by simp), List.flatMap_singleton, Text.lines_cons_feed,
      c.lines_unlines_ctorLines _ st.isIndent]
  · rfl

theorem lines_appendedText (kinds : List MemberKind) :
    (if (st.appendedText kinds).isEmpty then [] else [st.appendedText kinds]).flatMap Text.lines =
      c.appendedLines s (st.missing kinds) := by
  rw [appendedText]
  cases st.missing kinds with
  | nil => rfl
  | cons kind rest =>
      have lines := Text.lines_append_flatMap []
        (fun kind => Text.indentBlock s.indent (methodText s c.plain kind)) (kind :: rest)
      rw [List.nil_append] at lines
      rw [if_neg (by simp), List.flatMap_singleton, lines]
      rfl

theorem inserted_draftFor : (draftFor s selector (st.decl lineNo)).inserted =
    st.insertedText (kindsFor s.style (st.decl lineNo).header selector) := by
  rw [(draftFor_pending s selector _).1, flatMap_insertedFor s _ (nodup_kindsFor _ _ _),
    insertedFor, present?_constructor, constructorText_decl, forms, insertedText]
  cases st.hasCtor <;> simp

theorem appended_draftFor : (draftFor s selector (st.decl lineNo)).appended =
    st.appendedText (kindsFor s.style (st.decl lineNo).header selector) := by
  rw [(draftFor_pending s selector _).2.1, flatMap_appendedFor, appendedText]

theorem replacements_draftFor : (draftFor s selector (st.decl lineNo)).replacements = [] := by
  rw [(draftFor_pending s selector _).2.2, List.filterMap_eq_nil_iff]
  exact fun kind _ => st.replacementFor?_decl kind

theorem lines_write (whole : ∀ line ∈ st.methods, '\n' ∉ line) {kinds : List MemberKind}
    (once : kinds.Nodup) :
    (headerLine c.name (st.extended || kinds.contains .props) :: (c.fields.map (·.line) ++
      ((if (st.insertedText kinds).isEmpty then [] else [st.insertedText kinds]) ++
        ((ctorPart st.frame.ctor ++ st.methods) ++
          ((if (st.appendedText kinds).isEmpty then [] else [st.appendedText kinds]) ++
            ["\x7d".toList]))))).flatMap Text.lines = (st.write once).lines := by
  have header : (headerLine c.name (st.extended || kinds.contains .props)).lines = [_] :=
    Text.lines_of_notMem (notMem_headerLine c.isIdentifier _ (by decide) (by decide))
  have closing : Text.lines "\x7d".toList = ["\x7d".toList] := by decide
  simp only [List.flatMap_cons, List.flatMap_append, List.flatMap_nil, header, closing,
    lines_insertedText, lines_appendedText, Text.flatMap_lines_of_notMem (noFeed_fields c),
    Text.flatMap_lines_of_notMem st.noFeed_ctorPart, Text.flatMap_lines_of_notMem whole]
  have methods : (st.write once).methods = st.methods ++ c.appendedLines s (st.missing kinds) := rfl
  simp only [Stage.lines, Grown.front, ← st.ctorPart_write once, methods, List.append_assoc,
    List.cons_append, List.nil_append]
  rfl

theorem lines_render (whole : ∀ line ∈ st.methods, '\n' ∉ line) :
    (draftFor s selector (st.decl lineNo)).render.lines =
      (st.write (nodup_kindsFor s.style (st.decl lineNo).header selector)).lines := by
  have alike := alike_draftFor s selector (st.decl lineNo)
  have lines : (draftFor s selector (st.decl lineNo)).decl.lines = headerLine c.name st.extended ::
      (c.fields.map (·.line) ++ ((ctorPart st.frame.ctor ++ st.methods) ++ ["\x7d".toList])) := by
    rw [alike.lines]
    show st.frame.front ++ _ = _
    rw [Grown.front]
    simp only [List.append_assoc, List.cons_append]
    rfl
  have last : (draftFor s selector (st.decl lineNo)).decl.lastFieldLine? =
      some ((draftFor s selector (st.decl lineNo)).decl.firstLine + (c.fields.map (·.line)).length)
        := by
    rw [ClassDecl.lastFieldLine?, alike.fields, alike.firstLine, List.length_map]
    exact getLast?_placed c.nonempty lineNo
  rw [Draft.render_unreplaced st.replacements_draftFor lines (by simpa using c.nonempty) last,
    st.header_draftFor, st.inserted_draftFor, st.appended_draftFor,
    Text.lines_unlines_flatMap (by simp)]
  exact st.lines_write whole _

/-- Nothing is edited where nothing is missing. -/
theorem edit?_eq_none
    (methods : st.missing (kindsFor s.style (st.decl lineNo).header selector) = [])
    (ctor : .constructor ∈ kindsFor s.style (st.decl lineNo).header selector → st.hasCtor)
    (props : .props ∈ kindsFor s.style (st.decl lineNo).header selector → st.extended) :
    (draftFor s selector (st.decl lineNo)).edit? = none := by
  have changed : (draftFor s selector (st.decl lineNo)).headerChanged = false := by
    show (headerFor { decl := st.decl lineNo }
      (kindsFor s.style (st.decl lineNo).header selector)).headerChanged = false
    rw [headerFor]
    split
    · rename_i member
      rw [useEquatable_headerParts
        (show (st.decl lineNo).header = headerParts c.name st.extended from rfl),
        if_pos (props member)]
    · rfl
  have inserted : st.insertedText (kindsFor s.style (st.decl lineNo).header selector) = [] := by
    rw [insertedText, if_neg]
    simp only [Bool.and_eq_true, List.contains_iff_mem, Bool.not_eq_true', not_and,
      Bool.not_eq_false]
    exact ctor
  have appended : st.appendedText (kindsFor s.style (st.decl lineNo).header selector) = [] := by
    rw [appendedText, methods]
    rfl
  have nothing : (draftFor s selector (st.decl lineNo)).hasChanges = false := by
    rw [Draft.hasChanges, st.appended_draftFor, st.inserted_draftFor, st.replacements_draftFor,
      inserted, appended, changed]
    rfl
  rw [Draft.edit?, nothing]
  split <;> simp

end Stage

end ValueClass.Fresh
