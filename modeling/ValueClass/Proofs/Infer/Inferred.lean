import ValueClass.Infer.Classes
import ValueClass.Proofs.Infer.Names
import ValueClass.Proofs.Text.Lines

/-! # Inferred classes

Inference asks its namer for every name. The answers do not depend on what was asked
before, and every template engine writes the same declaration, so the class of a sketch is
a function of the sketch, and the classes of a document are those of its sketches without
the repeats.
-/

namespace ValueClass

def TypeSketch.spelled : TypeSketch → Text
  | .word name => name
  | .object named => Name.className named
  | .list element => "List<" ++ element.spelled ++ ">"

namespace Infer

open Namer

/-- The fields for some members, from a line on. -/
def inferredFields : Nat → List (Text × TypeSketch) → List Dart.Field
  | _, [] => []
  | line, (key, type) :: rest =>
    { rawType := type.spelled, key, name := Name.varName key, line } ::
      inferredFields (line + 1) rest

def fieldLine (indent type name : Text) : Text :=
  indent ++ "final " ++ type ++ " " ++ name ++ ";\n"

/-- A class declaration with its fields and nothing else. -/
def skeleton (name : Text) (fields : List (Text × Text)) (indent : Text) : Text :=
  "class " ++ name ++ " \x7b\n" ++
    (fields.flatMap fun (type, field) => fieldLine indent type field) ++ "\x7d"

def inferredClass (indent : Text) (sketch : ObjectSketch) : Dart.ClassDecl :=
  let name := Name.className sketch.named
  let fields := inferredFields 2 sketch.members
  let lines := (skeleton name (fields.map fun f => (f.rawType, f.name)) indent).lines
  { header := { name := some name }, firstLine := 1, lastLine := some lines.length, lines, fields }

theorem skeleton_eq (name : Text) (fields : List (Text × Text)) (indent : Text) :
    skeleton name fields indent = "class ".toList ++ (name ++ ' ' :: ("\x7b\n".toList ++
      ((fields.flatMap fun (type, field) => fieldLine indent type field) ++ "\x7d".toList))) := by
  have opening : " \x7b\n".toList = ' ' :: "\x7b\n".toList := by decide
  show "class ".toList ++ name ++ " \x7b\n".toList ++
    (fields.flatMap fun (type, field) => fieldLine indent type field) ++ "\x7d".toList = _
  simp only [opening, List.append_assoc, List.cons_append]

theorem render_fieldTemplate (engine : TemplateEngine) (context : TemplateContext)
    {indent : Text} (known : context.values.lookup "indent".toList = some indent)
    (type field : Text) :
    engine.render (fieldTemplate.map .piece)
      (context.bind "field" [("raw_type", type), ("name", field)]) =
        fieldLine indent type field := by
  let inner := context.bind "field" [("raw_type", type), ("name", field)]
  have indented : inner.values.lookup "indent".toList = some indent := known
  have typed : inner.values.lookup "field.raw_type".toList = some type := rfl
  have named : inner.values.lookup "field.name".toList = some field := rfl
  rw [fieldTemplate]
  simp only [List.map_cons, List.map_nil]
  rw [engine.documented.value indented, engine.documented.text, engine.documented.value typed,
    engine.documented.text, engine.documented.value named, engine.documented.text,
    engine.documented.nil, fieldLine]
  simp only [List.append_assoc, List.append_nil]

theorem render_classTemplate (engine : TemplateEngine) {context : TemplateContext}
    {name indent : Text} {fields : List (Text × Text)}
    (named : context.values.lookup "class_name".toList = some name)
    (indented : context.values.lookup "indent".toList = some indent)
    (listed : context.lists.lookup "fields".toList =
      some (fields.map fun (type, field) => [("raw_type", type), ("name", field)])) :
    engine.render classTemplate context = skeleton name fields indent := by
  rw [classTemplate, engine.documented.text, engine.documented.value named,
    engine.documented.text, engine.documented.each listed, engine.documented.text,
    engine.documented.nil, List.flatMap_map]
  simp only [render_fieldTemplate engine context indented]
  rw [skeleton_eq, List.append_nil]
  rfl

theorem declarationText_eq (engine : TemplateEngine) (name : Text) (fields : List (Text × Text))
    (indent : Text) : declarationText engine name fields indent = skeleton name fields indent :=
  render_classTemplate engine rfl rfl rfl

section Answers

variable {policy : NamePolicy}

theorem answers_typeText (type : TypeSketch) :
    Answers Name.dartPolicy (typeText type) type.spelled := by
  induction type with
  | word name => exact .pure name
  | object named => exact .nameFor named .pascal
  | list element ih => exact ih.bind (.pure _)

theorem answers_fieldsFrom (line : Nat) (members : List (Text × TypeSketch)) :
    Answers Name.dartPolicy (fieldsFrom line members) (inferredFields line members) := by
  induction members generalizing line with
  | nil => exact .pure []
  | cons member rest ih =>
      exact (answers_typeText member.2).bind ((Answers.nameFor member.1 .preserve).bind
        ((ih (line + 1)).bind (.pure _)))

theorem answers_classOf (engine : TemplateEngine) (indent : Text) (sketch : ObjectSketch) :
    Answers Name.dartPolicy (classOf engine indent sketch) (inferredClass indent sketch) := by
  refine (Answers.nameFor sketch.named .pascal).bind ((answers_fieldsFrom 2 sketch.members).bind ?_)
  simp only [declarationText_eq]
  exact .pure _

theorem answers_classesOf (engine : TemplateEngine) (indent : Text) (sketches : List ObjectSketch) :
    Answers Name.dartPolicy (classesOf engine indent sketches)
      (sketches.map (inferredClass indent)) := by
  induction sketches with
  | nil => exact .pure []
  | cons sketch rest ih => exact (answers_classOf engine indent sketch).bind (ih.bind (.pure _))

end Answers

theorem recalls_freshNamer : freshNamer.Recalls := by
  intro text case name found
  simp [freshNamer] at found

structure Accepted (style : Style) (source : JsonSource) (indent : Text)
    (members : List (Text × Json)) : Prop where
  /-- The object that the document is about. -/
  read : source.members = .ok members
  /-- The indentation can be used. -/
  usable : style.indent? = .ok indent

variable {style : Style} {test : DateTest} {engine : TemplateEngine} {source : JsonSource}
  {rootName : Text} {found : List Dart.ClassDecl}

theorem lift_ok_bind {α β : Type} (a : α) (f : α → ExceptT GenerateError (StateM Namer) β) :
    (liftM (Except.ok a : Except GenerateError α) >>= f) = f a := rfl

/-- What inference gives: the document is read, then the indentation is looked at. -/
theorem classes_run (style : Style) (test : DateTest) (engine : TemplateEngine)
    (source : JsonSource) (rootName : Text) :
    ((classes style test engine source rootName).run freshNamer).1 =
      source.members.bind fun members => style.indent?.bind fun indent => .ok <| dropRepeats [] <|
        (ObjectSketch.ofDocument (dateRule style test) rootName members).map
          (inferredClass indent) := by
  have answer : ∀ indent members,
      (classesOf engine indent (ObjectSketch.ofDocument (dateRule style test) rootName members)
        freshNamer).1 =
        (ObjectSketch.ofDocument (dateRule style test) rootName members).map
          (inferredClass indent) :=
    fun indent members => (answers_classesOf engine indent _ freshNamer rfl recalls_freshNamer).1
  rw [classes]
  cases source.members with
  | error e => rfl
  | ok members =>
      rw [lift_ok_bind, Except.bind]
      cases style.indent? with
      | error e => rfl
      | ok indent =>
          rw [Except.bind, ← answer indent members]
          rfl

/-- The sketches of an accepted document, one after the other, are the classes that are
    inferred; of those with the same text the first is kept. -/
theorem classes_eq_ok_iff :
    ((classes style test engine source rootName).run freshNamer).1 = .ok found ↔
      ∃ indent members, Accepted style source indent members ∧
        found = dropRepeats []
          ((ObjectSketch.ofDocument (dateRule style test) rootName members).map
            (inferredClass indent)) := by
  rw [classes_run]
  constructor
  · intro h
    cases read : source.members with
    | error e => simp [read, Except.bind] at h
    | ok members =>
        rw [read, Except.bind] at h
        cases usable : style.indent? with
        | error e => simp [usable, Except.bind] at h
        | ok indent =>
            rw [usable, Except.bind, Except.ok.injEq] at h
            exact ⟨indent, members, ⟨read, usable⟩, h.symm⟩
  · rintro ⟨indent, members, ⟨read, usable⟩, rfl⟩
    rw [read, Except.bind, usable]
    rfl

/-! ## Repeats -/

section Repeats

variable {seen : List Text} {cs : List Dart.ClassDecl} {c : Dart.ClassDecl}

theorem mem_of_mem_dropRepeats (h : c ∈ dropRepeats seen cs) : c ∈ cs := by
  induction cs generalizing seen with
  | nil => simp [dropRepeats] at h
  | cons first rest ih =>
      rw [dropRepeats] at h
      split at h
      · exact List.mem_cons_of_mem _ (ih h)
      · rcases List.mem_cons.mp h with rfl | h
        · exact List.mem_cons_self
        · exact List.mem_cons_of_mem _ (ih h)

/-- The text of a class that is dropped has been there before. -/
theorem exists_mem_dropRepeats (h : c ∈ cs) (fresh : c.content ∉ seen) :
    ∃ d ∈ dropRepeats seen cs, d.content = c.content := by
  induction cs generalizing seen with
  | nil => simp at h
  | cons first rest ih =>
      rw [dropRepeats]
      by_cases repeated : first.content ∈ seen
      · rw [if_pos (by simpa using repeated)]
        rcases List.mem_cons.mp h with rfl | h
        · exact absurd repeated fresh
        · exact ih h fresh
      · rw [if_neg (by simpa using repeated)]
        rcases List.mem_cons.mp h with rfl | h
        · exact ⟨c, List.mem_cons_self, rfl⟩
        · by_cases same : c.content = first.content
          · exact ⟨first, List.mem_cons_self, same.symm⟩
          · have unseen : c.content ∉ first.content :: seen := by simp [same, fresh]
            obtain ⟨d, kept, equal⟩ := ih h unseen
            exact ⟨d, List.mem_cons_of_mem _ kept, equal⟩

end Repeats

/-! ## The text of a class -/

variable {indent : Text} {sketch other : ObjectSketch}

theorem inferredClass_lines (indent : Text) (sketch : ObjectSketch) :
    (inferredClass indent sketch).lines = (skeleton (Name.className sketch.named)
      ((inferredFields 2 sketch.members).map fun f => (f.rawType, f.name)) indent).lines := by
  rw [inferredClass]

theorem content_inferredClass (indent : Text) (sketch : ObjectSketch) :
    (inferredClass indent sketch).content =
      skeleton (Name.className sketch.named)
        ((inferredFields 2 sketch.members).map fun f => (f.rawType, f.name)) indent := by
  rw [Dart.ClassDecl.content, inferredClass_lines, Text.unlines_lines]

theorem ctor_inferredClass (indent : Text) (sketch : ObjectSketch) :
    (inferredClass indent sketch).ctor = none := by
  rw [inferredClass]

theorem lastLine_inferredClass (indent : Text) (sketch : ObjectSketch) :
    (inferredClass indent sketch).lastLine = some (inferredClass indent sketch).lines.length := by
  rw [inferredClass]

@[simp] theorem fields_inferredClass (indent : Text) (sketch : ObjectSketch) :
    (inferredClass indent sketch).fields = inferredFields 2 sketch.members := rfl

theorem getElem?_inferredFields (line : Nat) (members : List (Text × TypeSketch)) (i : Nat) :
    (inferredFields line members)[i]? = members[i]?.map fun (key, type) =>
      { rawType := type.spelled, key, name := Name.varName key, line := line + i } := by
  induction members generalizing line i with
  | nil => rfl
  | cons member rest ih =>
      cases i with
      | zero => rfl
      | succ i =>
          have next : line + 1 + i = line + (i + 1) := by omega
          rw [inferredFields, List.getElem?_cons_succ, ih, next, List.getElem?_cons_succ]

theorem takeWhile_plain {name : Text} (plain : name.IsPlain) {c : Char}
    (stop : Text.isPlain c = false) (rest : Text) :
    (name ++ c :: rest).takeWhile Text.isPlain = name := by
  rw [List.takeWhile_append_of_pos plain, List.takeWhile_cons_of_neg (by simp [stop]),
    List.append_nil]

theorem className_eq_of_content
    (same : (inferredClass indent sketch).content = (inferredClass indent other).content) :
    Name.className sketch.named = Name.className other.named := by
  rw [content_inferredClass, content_inferredClass, skeleton_eq, skeleton_eq,
    List.append_cancel_left_eq] at same
  have blank : Text.isPlain ' ' = false := by decide
  have cut := congrArg (List.takeWhile Text.isPlain) same
  rwa [takeWhile_plain (Name.isPlain_className sketch.named) blank,
    takeWhile_plain (Name.isPlain_className other.named) blank] at cut

end Infer

end ValueClass
