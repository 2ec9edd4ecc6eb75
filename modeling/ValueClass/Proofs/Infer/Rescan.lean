import ValueClass.Proofs.Fresh.Session
import ValueClass.Proofs.Infer.PreOrder

/-! # Inferred classes are read back

Inference counts lines and lists fields without reading the text that it writes. Every
declared type is a name below lists and every name is an identifier, so each line between
the first and the last is the row of its field, and the scanner finds in the text what
inference says of it. Only the keys of the document are lost: the text has the names that
were made of them.
-/

namespace ValueClass

open Dart Fresh

/-! ## Types -/

theorem Fresh.isIdentifier_of_head {word : Text} (plain : word.IsPlain)
    (first : (word.head?.getD ' ').isAlpha) :
    IsIdentifier word := by
  cases word with
  | nil => exact absurd first (by decide)
  | cons c rest => exact ⟨plain, c, rest, rfl, .inl first⟩

theorem Fresh.anglesClose_plain {word : Text} (plain : word.IsPlain) (depth : Nat) (rest : Text) :
    anglesClose depth (word ++ rest) = anglesClose depth rest := by
  induction word with
  | nil => rfl
  | cons c word ih =>
      have first := plain c List.mem_cons_self
      rw [List.cons_append, anglesClose_cons (Text.ne_of_isPlain first (by decide))
        (Text.ne_of_isPlain first (by decide)), ih plain.tail]

namespace Dart.TypeExpr

variable {word : Text}

theorem listsOf_succ_eq (levels : Nat) (word : Text) :
    listsOf (levels + 1) word = "List".toList ++ '<' :: (listsOf levels word ++ ['>']) := by
  rw [listsOf_succ, List.append_assoc]
  rfl

theorem anglesClose_listsOf (plain : word.IsPlain) (levels depth : Nat) (rest : Text) :
    anglesClose depth (listsOf levels word ++ rest) = anglesClose depth rest := by
  induction levels generalizing depth rest with
  | zero => exact anglesClose_plain plain depth rest
  | succ levels ih =>
      have list : Text.IsPlain "List" := by decide
      rw [listsOf_succ_eq, List.append_assoc, anglesClose_plain list, List.cons_append,
        List.append_assoc]
      show anglesClose (depth + 1) (listsOf levels word ++ '>' :: rest) = _
      rw [ih]
      rfl

theorem words_listsOf (levels : Nat) :
    (listsOf levels word).words = List.replicate levels "List".toList ++ word.words := by
  induction levels with
  | zero => rfl
  | succ levels ih =>
      rw [listsOf_succ_eq, Text.words_append (by decide), Text.words_append (by decide), ih,
        Text.words_nil, List.append_nil, Text.words_of_forall (by decide) (by decide)]
      rfl

theorem typeChars_listsOf (plain : word.IsPlain) (levels : Nat) :
    (listsOf levels word).all isTypeChar := by
  induction levels with
  | zero =>
      rw [List.all_eq_true]
      intro c member
      simp [isTypeChar, plain c member]
  | succ levels ih =>
      rw [listsOf_succ, List.all_append, List.all_append, ih]
      decide

/-- Lists of a word are a type, if there is a list around an empty word. -/
theorem exists_typeText (known : word = [] ∨ IsIdentifier word) (free : word ∉ reserved)
    (levels : Nat) (some : listsOf levels word ≠ []) :
    ∃ t : TypeText, t.text = listsOf levels word := by
  have plain : word.IsPlain := by
    rcases known with rfl | name
    · exact .nil
    · exact name.plain
  have unreserved : ∀ part ∈ (listsOf levels word).words, part ∉ reserved := by
    intro part member
    rw [words_listsOf, List.mem_append] at member
    rcases member with list | inside
    · rw [List.eq_of_mem_replicate list]
      decide
    · rcases known with rfl | name
      · cases inside
      · rw [name.words, List.mem_singleton] at inside
        exact inside ▸ free
  -- the outermost list is the name of the type, what it holds is its argument
  cases levels with
  | zero =>
      have text : spellType word none false = word := List.append_nil word
      exact ⟨{ name := word
               isIdentifier := known.resolve_left some
               typeChars := by rintro _ ⟨⟩
               closed := by rintro _ ⟨⟩
               unreserved := by rwa [text] }, text⟩
  | succ levels =>
      have text : spellType "List" (listsOf levels word) false = listsOf (levels + 1) word := by
        rw [listsOf_succ_eq, spellType, if_neg (by decide), List.append_nil]
        rfl
      have closed : anglesClose 0 (listsOf levels word) := by
        rw [← List.append_nil (listsOf levels word), anglesClose_listsOf plain]
        rfl
      refine ⟨{ name := "List"
                arguments := listsOf levels word
                isIdentifier := isIdentifier_of_head (by decide) (by decide)
                typeChars := ?_
                closed := ?_
                unreserved := by rwa [text] }, text⟩
      · rintro inner ⟨⟩
        exact typeChars_listsOf plain levels
      · rintro inner ⟨⟩
        exact closed

end Dart.TypeExpr

namespace Infer

variable {style : Style} {test : DateTest} {engine : TemplateEngine}
  {source : JsonSource} {rootName indent named : Text}
  {members : List (Text × Json)} {found : List ClassDecl}

theorem className_notMem_reserved (text : Text) : Name.className text ∉ reserved := by
  have low : ∀ word ∈ reserved, (word.head?.getD 'A').isUpper = false ∧
      word.head?.getD 'n' ≠ 'n' := by decide
  intro member
  obtain ⟨notUpper, other⟩ := low _ member
  cases head : (Name.className text).head? with
  | none => exact other (by rw [head]; rfl)
  | some c =>
      rw [head, Option.getD_some] at notUpper other
      exact (Name.head_className head).elim (by simp [notUpper]) other

theorem exists_typeText_spelled (dates : ObjectSketch.DateRule) (key : Text) (value : Json)
    (some : (ObjectSketch.ofValue dates key value).1.spelled ≠ []) :
    ∃ t : TypeText, t.text = (ObjectSketch.ofValue dates key value).1.spelled := by
  have scalars : ∀ word ∈ ObjectSketch.scalarWords, word ∉ reserved ∧ word.IsPlain ∧
      (word.head?.getD ' ').isAlpha := by decide
  obtain ⟨levels, word, type, known⟩ := ObjectSketch.spelled_cases dates key value
  rw [type] at some ⊢
  rcases known with scalar | ⟨depth, inner, -, rfl⟩
  · obtain ⟨free, plain, alpha⟩ := scalars word scalar
    exact TypeExpr.exists_typeText (.inr (isIdentifier_of_head plain alpha)) free levels some
  · refine TypeExpr.exists_typeText ?_ (className_notMem_reserved _) levels some
    by_cases none : Name.className (Name.singular^[depth] key) = []
    · exact .inl none
    · exact .inr (Name.isIdentifier_className none)

/-! ## Rows -/

def unkeyed (f : Field) : Field :=
  { f with key := f.name }

/-- The line of an inferred field is a row. -/
theorem exists_row (usable : style.indent? = .ok indent) {f : Field}
    (listed : f ∈ (classFor style test indent named members).fields) (typed : f.rawType ≠ [])
    (plain : f.name ∉ Line.excludedWords) :
    ∃ row : FieldRow, row.line = declaration indent f ∧ row.field f.line = unkeyed f := by
  obtain ⟨key, value, line, -, rfl⟩ := exists_member_of_mem_fields listed
  obtain ⟨type, text⟩ := exists_typeText_spelled (dateRule style test) key value typed
  have ind := isIndent_of_indent? usable
  let row : FieldRow :=
    { indent, type
      name := Name.varName key
      blank := ind.blank
      noFeed := fun member => absurd (List.all_eq_true.mp ind.light _ member) (by decide)
      isIdentifier := Name.isIdentifier_varName key
      plain := fun member => (List.mem_cons.mp member).elim (Name.varName_ne_class key) plain }
  refine ⟨row, ?_, ?_⟩
  · show indent ++ ("final ".toList ++ type.text ++ " ".toList ++ Name.varName key ++ ";".toList) =
        _
    rw [text, declaration]
    simp only [List.append_assoc]
  · show ({ rawType := type.text, key := Name.varName key, name := Name.varName key, line } :
      Field) = _
    rw [text]
    rfl

theorem exists_rows {members : List (Text × TypeSketch)} {lineNo : Nat}
    (each : ∀ f ∈ inferredFields lineNo members,
      ∃ row : FieldRow, row.line = declaration indent f ∧ row.field f.line = unkeyed f) :
    ∃ rows : List FieldRow, rows.map (·.line) = (inferredFields lineNo members).map
      (declaration indent) ∧
      numbered lineNo rows = (inferredFields lineNo members).map unkeyed := by
  induction members generalizing lineNo with
  | nil => exact ⟨[], rfl, rfl⟩
  | cons member rest ih =>
      obtain ⟨row, line, field⟩ := each _ List.mem_cons_self
      obtain ⟨rows, lines, fields⟩ := ih fun f listed => each f (List.mem_cons_of_mem _ listed)
      refine ⟨row :: rows, ?_, ?_⟩
      · rw [List.map_cons, line, lines]
        rfl
      · rw [numbered, fields, inferredFields, List.map_cons, ← field]

/-! ## Classes -/

/-- A class whose fields can be read back is read back as it is, but for the keys. -/
theorem scan_content (usable : style.indent? = .ok indent) (some : Name.className named ≠ [])
    (typed : ∀ f ∈ (classFor style test indent named members).fields, f.rawType ≠ [])
    (plain : ∀ f ∈ (classFor style test indent named members).fields, f.name ∉ Line.excludedWords) :
    let c := classFor style test indent named members
    scan c.content = [{ c with fields := c.fields.map unkeyed }] := by
  intro c
  have name := Name.isIdentifier_className some
  -- a line that starts with the name of its class is no field, and every row starts with `final`
  have other : (Name.className named).head? ≠ 'f' := by
    intro head
    rcases Name.head_className head with upper | mark
    · exact absurd upper (by decide)
    · exact absurd mark (by decide)
  obtain ⟨rows, rowLines, fields⟩ : ∃ rows : List FieldRow,
      rows.map (·.line) = c.fields.map (declaration indent) ∧
        numbered 2 rows = c.fields.map unkeyed :=
    exists_rows fun f listed => exists_row usable listed (typed f listed) (plain f listed)
  have lines : c.lines = headerLine (Name.className named) false ::
      (rows.map (·.line) ++ ["\x7d".toList]) := by
    rw [rowLines]
    exact lines_classFor usable
  have last : c.lastLine = Option.some c.lines.length := lastLine_inferredClass indent _
  have read := scan_rows name other rows
  rw [← lines, fields] at read
  dsimp only at read
  rw [← last] at read
  exact read

theorem isValid_unkeyed (c : ClassDecl) :
    ({ c with fields := c.fields.map unkeyed } : ClassDecl).isValid = c.isValid := by
  have names : (c.fields.map unkeyed).map (·.name) = c.fields.map (·.name) := by
    rw [List.map_map]
    rfl
  simp only [ClassDecl.isValid, ClassDecl.issue?, ClassDecl.fieldNames, names, List.isEmpty_map]
  rfl

/-- An inferred class is what the scanner finds in its text. Only the keys of the document are
    not there: a field that is read from the text is keyed by its name. -/
theorem scan_inferred
    (accepted : ((classes style test engine source rootName).run freshNamer).1 = .ok found)
    {c : ClassDecl} (kept : c ∈ found) (named : c.name ≠ [])
    (typed : ∀ f ∈ c.fields, f.rawType ≠ []) (plain : ∀ f ∈ c.fields, f.name ∉ Line.excludedWords) :
    ∃ d, scan c.content = [d] ∧ d.header = c.header ∧ d.firstLine = 1 ∧ d.lastLine = c.lastLine ∧
      d.lines = c.lines ∧ d.ctor = none ∧
        d.fields = c.fields.map (fun f => { f with key := f.name }) ∧
      d.isValid = c.isValid := by
  obtain ⟨indent, root, read, each, -⟩ := visited_of_classes accepted
  obtain ⟨name, members, -, same⟩ := each c kept
  have again : scan c.content = [{ c with fields := c.fields.map unkeyed }] := by
    subst same
    exact scan_content read.usable named typed plain
  have first : c.firstLine = 1 := by
    rw [same]
    rfl
  have free : c.ctor = none := by
    rw [same]
    exact ctor_inferredClass _ _
  exact ⟨_, again, rfl, first, rfl, rfl, free, rfl, isValid_unkeyed c⟩

/-- For `\x7b"users": [\x7b"first-name": "A"\x7d]\x7d` the class of the whole document is read
    back with its list of users. -/
theorem scan_inferred_users :
    let user : Json := .obj [("first-name", .str "A")]
    let root : List (Text × Json) := [("users", .arr [user])]
    let c := classFor {} .calendar "  " "Root" root
    let inner := classFor {} .calendar "  " "user" [("first-name", .str "A")]
    ((classes {} .calendar .plain (.value (.obj root)) "Root").run freshNamer).1 = .ok
    [c, inner] ∧ c.name ≠ [] ∧
      (∀ f ∈ c.fields, f.rawType ≠ []) ∧ (∀ f ∈ c.fields, f.name ∉ Line.excludedWords) ∧
      c.content = "class Root \x7b\n  final List<User> users;\n\x7d" ∧
      ∃ d, scan c.content = [d] ∧ d.header = c.header ∧ d.firstLine = 1 ∧ d.lastLine = some 3 ∧
        d.lines = c.lines ∧
        d.ctor = none ∧ d.fields =
          [{ rawType := "List<User>", key := "users", name := "users", line := 2 }] ∧
        d.isValid := by
  intro user root c inner
  obtain ⟨accepted, named, typed, plain, last, fields, valid, shown⟩ :
      ((classes {} .calendar .plain (.value (.obj root)) "Root").run freshNamer).1 =
        .ok [c, inner] ∧ c.name ≠ [] ∧
      (∀ f ∈ c.fields, f.rawType ≠ []) ∧ (∀ f ∈ c.fields, f.name ∉ Line.excludedWords) ∧
        c.lastLine = some 3 ∧
      c.fields.map (fun f => { f with key := f.name }) =
        [{ rawType := "List<User>", key := "users", name := "users", line := 2 }] ∧
      c.isValid ∧ c.content = "class Root \x7b\n  final List<User> users;\n\x7d" := by
    decide +kernel
  have read := scan_inferred accepted List.mem_cons_self named typed plain
  rw [last, fields, valid] at read
  exact ⟨accepted, named, typed, plain, shown, read⟩

end Infer

end ValueClass
