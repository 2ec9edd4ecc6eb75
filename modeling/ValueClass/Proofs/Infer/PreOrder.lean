import ValueClass.Proofs.Infer.Layouts
import ValueClass.Proofs.Infer.NestedCodec

/-! # Classes in pre-order

A document that can be followed down has a class for every object that is visited, the
outer one before those it holds. Of classes with the same text the first is kept, and since
the text of a class tells its name, every type that a field names is still there.
-/

namespace ValueClass

open Dart

namespace Json

/-- A document is about an object: it is the object, or an array of which this is the first
    object. -/
inductive IsAbout : Json → List (Text × Json) → Prop where
  | object {members : List (Text × Json)} : IsAbout (.obj members) members
  | item {before after : List Json} {members : List (Text × Json)}
      (none : ∀ item ∈ before, ∀ others, item ≠ .obj others) :
      IsAbout (.arr (before ++ .obj members :: after)) members

theorem rootMembers?_eq_some_iff {json : Json} {members : List (Text × Json)} :
    ObjectSketch.rootMembers? json = some members ↔ json.IsAbout members := by
  constructor
  · intro found
    cases json with
    | obj others =>
        cases found
        exact .object
    | arr items =>
        obtain ⟨before, item, after, rfl, held, none⟩ := List.findSome?_eq_some_iff.mp found
        cases item with
        | obj others =>
            cases held
            refine .item fun item listed others object => ?_
            subst object
            simpa using none _ listed
        | null | bool | int | float | str | arr => cases held
    | null | bool | int | float | str => cases found
  · rintro (_ | none)
    · rfl
    · refine List.findSome?_eq_some_iff.mpr ⟨_, _, _, rfl, rfl, fun item listed => ?_⟩
      cases item with
      | obj others => exact absurd rfl (none _ listed others)
      | null | bool | int | float | str | arr => rfl

mutual

/-- The objects that are visited from a value under a name, in pre-order, each with the text
    it is named after. An array is looked at through its first item. -/
def visited (named : Text) : Json → List (Text × List (Text × Json))
  | .obj members => (named, members) :: visitedMembers members
  | .arr (first :: _) => visited (Name.singular named) first
  | _ => []

/-- The objects that are visited from the members of an object, from one member after the other. -/
def visitedMembers : List (Text × Json) → List (Text × List (Text × Json))
  | [] => []
  | (key, value) :: rest => visited key value ++ visitedMembers rest

end

theorem visitedMembers_eq (members : List (Text × Json)) :
    visitedMembers members = members.flatMap fun (key, value) => value.visited key := by
  induction members with
  | nil => rfl
  | cons member rest ih => rw [visitedMembers, ih, List.flatMap_cons]

theorem visited_obj (named : Text) (members : List (Text × Json)) :
    (Json.obj members).visited named =
      (named, members) :: members.flatMap fun (key, value) => value.visited key := by
  rw [visited, visitedMembers_eq]

end Json

namespace ObjectSketch

variable {dates : DateRule}

theorem nested_ofMembers (dates : DateRule) (members : List (Text × Json)) :
    (ofMembers dates members).2 =
      members.flatMap fun (key, value) => (ofValue dates key value).2 := by
  induction members with
  | nil => rfl
  | cons member rest ih => rw [ofMembers, List.flatMap_cons, ← ih]

/-- The sketches of a value are those of the objects that are visited, in the same order. -/
theorem sketches_eq (dates : DateRule) (named : Text) : ∀ value : Json,
    (ofValue dates named value).2 =
      (value.visited named).map fun (name, members) => ofObject dates name members
  | .obj members => by
    have object : (ofValue dates named (.obj members)).2 = ofObject dates named members ::
        (ofMembers dates members).2 := by
      rw [ofValue]
      rfl
    rw [object, Json.visited_obj, List.map_cons, nested_ofMembers, List.map_flatMap]
    refine congrArg (ofObject dates named members :: ·) (List.flatMap_congr fun member listed => ?_)
    obtain ⟨key, inner⟩ := member
    have smaller : sizeOf inner < sizeOf members := by
      have held : sizeOf (key, inner) < sizeOf members := List.sizeOf_lt_of_mem listed
      rw [Prod.mk.sizeOf_spec] at held
      omega
    exact sketches_eq dates key inner
  | .arr [] => by simp [ofValue, Json.visited]
  | .arr (item :: _) => by
    rw [ofValue, Json.visited]
    exact sketches_eq dates (Name.singular named) item
  | .null | .bool _ | .int _ | .float _ | .str _ => by simp [ofValue, Json.visited]
termination_by value => sizeOf value

/-- The words that are types of values without parts. -/
def scalarWords : List Text :=
  ["bool", "int", "double", "String", "DateTime", "dynamic"]

theorem scalarWord_mem (dates : DateRule) (value : Json) :
    scalarWord dates value ∈ scalarWords := by
  cases value with
  | str t =>
      show (if _ then "DateTime".toList else "String".toList) ∈ scalarWords
      split <;> decide
  | bool => exact (by decide : "bool".toList ∈ scalarWords)
  | int => exact (by decide : "int".toList ∈ scalarWords)
  | float => exact (by decide : "double".toList ∈ scalarWords)
  | null | arr | obj => exact (by decide : "dynamic".toList ∈ scalarWords)

theorem spelled_cases (dates : DateRule) (named : Text) : ∀ value : Json,
    ∃ levels word, (ofValue dates named value).1.spelled = TypeExpr.listsOf levels word ∧
      (word ∈ scalarWords ∨ ∃ depth members, value.LeadsTo depth members ∧
        word = Name.className (Name.singular^[depth] named))
  | .obj members => ⟨0, _, by rw [ofValue]; rfl, .inr ⟨0, members, .object, rfl⟩⟩
  | .arr [] => ⟨1, "dynamic", by rw [ofValue]; rfl, .inl (by decide)⟩
  | .arr (item :: _) => by
    obtain ⟨levels, word, type, known⟩ := spelled_cases dates (Name.singular named) item
    refine ⟨levels + 1, word, ?_, known.imp_right ?_⟩
    · rw [ofValue, TypeExpr.listsOf_succ, ← type]
      rfl
    · rintro ⟨depth, members, leads, rfl⟩
      exact ⟨depth + 1, members, leads.first, rfl⟩
  | .null | .bool _ | .int _ | .float _ | .str _ =>
    ⟨0, _, by rw [ofValue] <;> first | rfl | simp, .inl (scalarWord_mem dates _)⟩

end ObjectSketch

namespace Dart.TypeExpr

theorem baseText_lists {name : Text} (plain : name.IsPlain) (levels : Nat) :
    (parse (listsOf levels name)).baseText = name ∨
    (parse (listsOf levels name)).baseText = "dynamic".toList := by
  induction levels with
  | zero =>
      show (parse name).baseText = _ ∨ (parse name).baseText = _
      rw [parse_name plain]
      split_ifs
      · exact .inr rfl
      · exact .inr rfl
      · exact .inl rfl
      · exact .inl rfl
  | succ levels ih =>
      rw [listsOf_succ, parse_list (solid_listsOf plain.solid levels)]
      exact ih

end Dart.TypeExpr

namespace Infer

def sameText (c d : ClassDecl) : Bool :=
  c.content == d.content

theorem dropRepeats_eq (seen : List Text) (cs : List ClassDecl) :
    dropRepeats seen cs = (cs.filter fun c => !seen.contains c.content).eraseDupsBy sameText := by
  induction cs generalizing seen with
  | nil => rfl
  | cons first rest ih =>
      rw [dropRepeats]
      cases repeated : seen.contains first.content with
      | true => rw [if_pos rfl, ih, List.filter_cons_of_neg (by rw [repeated]; decide)]
      | false =>
          rw [if_neg (by decide), ih, List.filter_cons_of_pos (by rw [repeated]; decide),
            List.eraseDupsBy_cons, List.filter_filter]
          refine congrArg (fun others => first :: List.eraseDupsBy
            sameText others) (List.filter_congr fun c _ => ?_)
          rw [List.contains_cons, sameText]
          cases c.content == first.content <;> simp

theorem eraseDupsBy_sameText (cs : List ClassDecl) :
    cs.eraseDupsBy sameText = dropRepeats [] cs := by
  simp [dropRepeats_eq]

theorem nodup_dropRepeats (seen : List Text) (cs : List ClassDecl) :
    ((dropRepeats seen cs).map (·.content)).Nodup ∧ ∀ c ∈
    dropRepeats seen cs, c.content ∉ seen := by
  induction cs generalizing seen with
  | nil => exact ⟨List.nodup_nil, fun c listed => nomatch listed⟩
  | cons first rest ih =>
      rw [dropRepeats]
      split
      · exact ih seen
      · rename_i new
        have new : first.content ∉ seen := by simpa using new
        obtain ⟨distinct, unseen⟩ := ih (first.content :: seen)
        refine ⟨List.nodup_cons.mpr ⟨fun again => ?_, distinct⟩, fun c listed => ?_⟩
        · obtain ⟨c, listed, same⟩ := List.mem_map.mp again
          exact unseen c listed (same ▸ List.mem_cons_self)
        · rcases List.mem_cons.mp listed with rfl | listed
          · exact new
          · exact fun known => unseen c listed (List.mem_cons_of_mem _ known)

theorem keys_inferredFields (line : Nat) (members : List (Text × TypeSketch)) :
    (inferredFields line members).map (·.key) = members.map Prod.fst := by
  induction members generalizing line with
  | nil => rfl
  | cons member rest ih => rw [inferredFields, List.map_cons, List.map_cons, ih]

variable {style : Style} {test : DateTest} {engine : TemplateEngine}
  {source : JsonSource} {rootName indent : Text}
  {found : List ClassDecl}

theorem keys_classFor (named : Text) (members : List (Text × Json)) :
    (classFor style test indent named members).fields.map (·.key) = members.map Prod.fst := by
  rw [classFor, fields_inferredClass, keys_inferredFields, ObjectSketch.ofObject,
    ObjectSketch.types_ofMembers, List.map_map]
  rfl

theorem exists_member_of_mem_fields {named : Text} {members : List (Text × Json)} {f : Field}
    (listed : f ∈ (classFor style test indent named members).fields) :
    ∃ key value line, (key, value) ∈ members ∧
      f = { rawType := (ObjectSketch.ofValue (dateRule style test) key value).1.spelled, key, name
        := Name.varName key,
            line } := by
  obtain ⟨i, field⟩ := List.mem_iff_getElem?.mp listed
  rw [classFor, fields_inferredClass, getElem?_inferredFields, ObjectSketch.ofObject,
    ObjectSketch.types_ofMembers, List.getElem?_map, Option.map_map] at field
  obtain ⟨⟨key, value⟩, member, rfl⟩ := Option.map_eq_some_iff.mp field
  exact ⟨key, value, _, List.mem_of_getElem? member, rfl⟩

theorem classes_eq_visited {root : List (Text × Json)}
    (accepted : Accepted style source indent root) :
    ((classes style test engine source rootName).run freshNamer).1 =
      .ok ((((Json.obj root).visited rootName).map fun (named, members) =>
        classFor style test indent named members).eraseDupsBy sameText) := by
  refine classes_eq_ok_iff.mpr ⟨indent, root, accepted, ?_⟩
  rw [eraseDupsBy_sameText, ObjectSketch.ofDocument, ObjectSketch.sketches_eq, List.map_map]
  rfl

/-- Every type that an inferred field names is a word of the language or an inferred class. -/
theorem baseText_of_accepted
    (accepted : ((classes style test engine source rootName).run freshNamer).1 = .ok found)
    {c : ClassDecl} (kept : c ∈ found) {f : Field} (listed : f ∈ c.fields) :
    f.type.baseText ∈ ObjectSketch.scalarWords ∨ ∃ d ∈ found, d.name = f.type.baseText := by
  obtain ⟨indent, root, -, each, all⟩ := visited_of_classes accepted
  obtain ⟨named, members, visits, rfl⟩ := each c kept
  obtain ⟨key, value, line, member, rfl⟩ := exists_member_of_mem_fields listed
  obtain ⟨levels, word, type, known⟩ := ObjectSketch.spelled_cases (dateRule style test) key value
  have dynamic : "dynamic".toList ∈ ObjectSketch.scalarWords := by decide
  show (TypeExpr.parse (ObjectSketch.ofValue _ key value).1.spelled).baseText ∈ _ ∨
    ∃ d ∈ found, d.name = (TypeExpr.parse (ObjectSketch.ofValue _ key value).1.spelled).baseText
  rw [type]
  rcases known with scalar | ⟨depth, inner, leads, rfl⟩
  · have plain : ∀ word ∈ ObjectSketch.scalarWords, word.IsPlain := by decide
    rcases TypeExpr.baseText_lists (plain word scalar) levels with base | base
    · rw [base]
      exact .inl scalar
    · rw [base]
      exact .inl dynamic
  · rcases TypeExpr.baseText_lists (Name.isPlain_className (Name.singular^[depth] key))
      levels with base | base
    · obtain ⟨d, inside, -, name⟩ := all _ inner (visits.member member leads)
      exact .inr ⟨d, inside, name.trans base.symm⟩
    · rw [base]
      exact .inl dynamic

end Infer

/-! ## Requests -/

namespace JsonRequest

variable {request : JsonRequest}

theorem members_eq_ok {source : JsonSource} {json : Json} {root : List (Text × Json)}
    (read : source.read = .ok json) (about : json.IsAbout root) : source.members = .ok root := by
  rw [JsonSource.members, read]
  simp only [bind, Except.bind, Json.rootMembers?_eq_some_iff.mpr about]
  rfl

theorem members_eq_error {source : JsonSource} {e : GenerateError}
    (failed : source.members = .error e) :
    e ≠ .noClasses := by
  rintro rfl
  rw [JsonSource.members] at failed
  cases read : source.read with
  | error e =>
      rw [read] at failed
      cases failed
      cases source with
      | value json => cases read
      | document text =>
          rw [JsonSource.read] at read
          cases parsed : Json.read text with
          | ok json => simp [parsed, Except.mapError] at read
          | error fault =>
              simp only [parsed, Except.mapError, Except.error.injEq,
                GenerateError.ofReadError] at read
              split at read <;> cases read
  | ok json =>
      rw [read] at failed
      simp only [bind, Except.bind] at failed
      split at failed <;> cases failed

theorem indent?_ne_noClasses (style : Style) : style.indent? ≠ .error .noClasses := by
  rw [Style.indent?]
  split <;> simp

theorem inferred_ne_noClasses (request : JsonRequest) : request.inferred ≠ .error .noClasses := by
  rw [inferred, Infer.classes_run]
  cases read : request.source.members with
  | error e =>
      rintro ⟨⟩
      exact members_eq_error read rfl
  | ok members =>
      rw [Except.bind]
      cases usable : request.style.indent? with
      | error e =>
          rintro ⟨⟩
          exact indent?_ne_noClasses _ usable
      | ok indent => simp [Except.bind]

theorem layout_ne_noClasses (request : JsonRequest) (count : Nat) (before : Interview) :
    ((request.layout count).result before).1 ≠ .error .noClasses := by
  have confirmed : ((Run.confirm Infer.separateQuestion).result before).1 ≠ .error .noClasses := by
    have asked : (liftM (Interview.ask Infer.separateQuestion : StateM Interview Reply) :
      Run Reply).result before =
        (.ok (Interview.ask Infer.separateQuestion before).1,
          (Interview.ask Infer.separateQuestion before).2) := rfl
    rw [Run.confirm, Run.result_bind, asked]
    cases (Interview.ask Infer.separateQuestion before).1 with
    | accept | decline | cancel => rintro ⟨⟩
  rw [layout]
  cases request.separate with
  | some separate => rintro ⟨⟩
  | none =>
      cases request.style.separate with
      | always | never => rintro ⟨⟩
      | ask =>
          by_cases single : (count == 1) = true
          · simp only [Infer.decideSeparate, if_pos single]
            rintro ⟨⟩
          · simp only [Infer.decideSeparate, if_neg single]
            exact confirmed

theorem inferred_ne_nil {found : List ClassDecl} (accepted : request.inferred = .ok found) :
    found ≠ [] := by
  obtain ⟨_, root, -, -, all⟩ := Infer.visited_of_classes accepted
  obtain ⟨d, kept, -⟩ := all request.rootName root (.here .object)
  exact List.ne_nil_of_mem kept

/-- A request finds no classes only where inference says so, and it never does. -/
theorem generate_ne_noClasses (request : JsonRequest) (before : Interview) :
    (request.generate.result before).1 ≠ .error .noClasses := by
  have lifted : ∀ {α : Type} (x : Except GenerateError α) (i : Interview),
      (liftM x : Run α).result i = (x, i) := by
    intro α x i
    cases x <;> rfl
  rw [generate_eq, Run.result_bind, lifted]
  cases accepted : request.inferred with
  | error e =>
      rintro ⟨⟩
      exact inferred_ne_noClasses request accepted
  | ok found =>
      have some : ¬ found.isEmpty = true := by simpa using inferred_ne_nil accepted
      simp only [if_neg some, Run.result_bind, lifted, Run.result_pure]
      cases decided : (request.layout found.length).result before with
      | mk result between =>
          cases result with
          | error e =>
              rintro ⟨⟩
              exact layout_ne_noClasses request found.length before (congrArg Prod.fst decided)
          | ok separate =>
              cases usable : request.style.indent? with
              | error e =>
                  rintro ⟨⟩
                  exact indent?_ne_noClasses _ usable
              | ok indent => simp

/-- The classes that are found for the object a document is about. -/
structure Preordered (request : JsonRequest) (indent : Text) (root : List (Text × Json))
    (found : List ClassDecl) : Prop where
  /-- They are the classes of the visited objects in pre-order; of those with the same text
      the first is kept. -/
  preorder : found = (((Json.obj root).visited request.rootName).map fun (named, members) =>
    Infer.classFor request.style request.dates indent named members).eraseDupsBy Infer.sameText
  /-- No two have the same text. -/
  distinct : (found.map (·.content)).Nodup
  /-- The class of the document comes first. -/
  outermost : found.head?.map (·.name) = some (Name.className request.rootName)
  /-- Each is the class of a visited object and has a field for each of its keys, in order. -/
  keys : ∀ c ∈ found, ∃ named members, (named, members) ∈ (Json.obj root).visited request.rootName ∧
    c = Infer.classFor request.style request.dates indent named members ∧
    c.fields.map (·.key) = members.map Prod.fst
  /-- Every type that is named is a word of the language or one of the classes. -/
  closed : ∀ c ∈ found, ∀ f ∈ c.fields,
    f.type.baseText ∈ ObjectSketch.scalarWords ∨ ∃ d ∈ found, d.name = f.type.baseText

theorem preordered_of_accepted {root : List (Text × Json)} {indent : Text}
    {found : List ClassDecl} (read : Infer.Accepted request.style request.source indent root)
    (accepted : request.inferred = .ok found) :
    request.Preordered indent root found := by
  have preorder := Except.ok.inj (accepted.symm.trans (Infer.classes_eq_visited read))
  refine ⟨preorder, ?_, ?_, ?_, fun c kept f listed =>
    Infer.baseText_of_accepted accepted kept listed⟩
  · rw [preorder, Infer.eraseDupsBy_sameText]
    exact (Infer.nodup_dropRepeats [] _).1
  · rw [preorder, Json.visited_obj, List.map_cons, List.eraseDupsBy_cons]
    rfl
  · intro c kept
    rw [preorder, Infer.eraseDupsBy_sameText] at kept
    obtain ⟨⟨named, members⟩, visits, rfl⟩ := List.mem_map.mp (Infer.mem_of_mem_dropRepeats kept)
    exact ⟨named, members, visits, rfl, Infer.keys_classFor named members⟩

/-- A document about an object has the classes of its visited objects in pre-order, without repeats
and closed under the types that their fields name. No request fails for want of classes. -/
theorem inferred_preordered {json : Json} {root : List (Text × Json)} {indent : Text}
    (read : request.source.read = .ok json) (about : json.IsAbout root)
    (usable : request.style.indent? = .ok indent) :
    (∃ found, request.inferred = .ok found ∧ found ≠ [] ∧ request.Preordered indent root found) ∧
      ∀ before, (request.generate.result before).1 ≠ .error .noClasses := by
  have accepted : Infer.Accepted request.style request.source indent root :=
    ⟨members_eq_ok read about, usable⟩
  have found : request.inferred = .ok _ := Infer.classes_eq_visited accepted
  exact ⟨⟨_, found, inferred_ne_nil found, preordered_of_accepted accepted found⟩,
    generate_ne_noClasses request⟩

/-- `\x7b"a": \x7b"x": 1\x7d, "b": [\x7b"x": 1\x7d], "as": [[\x7b"x": 1\x7d]]\x7d` leads to
    three objects below the outermost, and the last is dropped: under the singular of its key
    its class has the same text as that of the first. -/
theorem inferred_preordered_repeat :
    let x : Json := .obj [("x", .int 1)]
    let root : List (Text × Json) := [("a", x), ("b", .arr [x]), ("as", .arr [x])]
    let request : JsonRequest := { source := .value (.arr [.int 0, .obj root]), rootName := "Root" }
    (Json.obj root).visited "Root" = [("Root".toList, root), ("a".toList, [("x", .int 1)]),
        ("b".toList, [("x", .int 1)]), ("a".toList, [("x", .int 1)])] ∧
      ∃ found, request.inferred = .ok found ∧ found.map (·.name) = ["Root", "A", "B"] := by
  intro x root request
  have usable : request.style.indent? = .ok "  " := by decide
  have about : (Json.arr ([.int 0] ++ .obj root :: [])).IsAbout root := .item (by simp)
  obtain ⟨found, accepted, -, shape⟩ := (inferred_preordered rfl about usable).1
  refine ⟨rfl, found, accepted, ?_⟩
  rw [shape.preorder]
  decide +kernel

end JsonRequest

end ValueClass
