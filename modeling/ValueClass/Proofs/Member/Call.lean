import ValueClass.Proofs.Dart.CodecLine
import ValueClass.Proofs.Member.Positional
import ValueClass.Proofs.Member.Signature

/-! # The call of the constructor

`copyWith` and `fromMap` return what the constructor makes of one argument for each
field. The arguments stand on lines of their own, in the order in which the fields are
declared, and each is the value alone or the value behind the name of its field.
-/

namespace ValueClass.Dart

open Text (OneLine)

/-! ## Arguments -/

structure Argument where
  /-- The field that it is for. -/
  field : Text
  /-- Whether it stands behind the name of the field. -/
  named : Bool
  value : Text
  deriving Repr, DecidableEq

namespace Argument

def text (a : Argument) : Text :=
  if a.named then a.field ++ ": ".toList ++ a.value else a.value

/-- The fields of the arguments that are passed by position, in order. -/
def byPosition (args : List Argument) : List Text :=
  (args.filter fun a => !a.named).map (·.field)

/-- The lines of a call whose result is returned. -/
def callLines (indent name : Text) (args : List Argument) : List Text :=
  (indent ++ "return ".toList ++ name ++ "(".toList) ::
    (args.map (fun a => indent ++ (indent ++ a.text ++ ",".toList)) ++ [indent ++ ");".toList])

end Argument

/-- What a member passes for a field: the parameter of `copyWith` or the old value, or
    what `fromMap` reads from the map. -/
def passedValue (s : Surroundings) (f : Field) : MemberKind → Text
  | .copyWith => f.name ++ " ?? this.".toList ++ f.name
  | _ => Method.decoded s.style.mapDefaults s.fromJson f

/-- A member calls the constructor with an argument for each field, in the order in
    which the fields are declared. -/
structure Calls (s : Surroundings) (c : ClassDecl) (kind : MemberKind) (t : Text)
    (args : List Argument) : Prop where
  fields : args.map (·.field) = c.fieldNames
  values : args.map (·.value) = c.fields.map fun f => passedValue s f kind
  lines : ∃ above below, t.lines = above ++
    ((Argument.callLines s.indent c.name args).map (s.indent ++ ·) ++ below)

/-- The arguments of a member that calls the constructor. -/
def argumentsFor (s : Surroundings) (c : ClassDecl) (kind : MemberKind) : List Argument :=
  c.fields.map fun f => ⟨f.name, c.namedFields.contains f.name, passedValue s f kind⟩

section Call

variable {c : ClassDecl}

theorem byPosition_argumentsFor (s : Surroundings) (kind : MemberKind) :
    Argument.byPosition (argumentsFor s c kind) = c.passedByPosition := by
  rw [Argument.byPosition, argumentsFor, ClassDecl.passedByPosition, ClassDecl.fieldNames,
    List.filter_map, List.filter_map, List.map_map]
  rfl

/-! ## Lines that hold no mark -/

def IsClosed (line : Text) : Prop :=
  ∃ front stop, line = front ++ [stop] ∧ stop ∉ Method.overrideMark

theorem replaceAll_feed (t : Text) :
    Text.replaceAll Method.overrideMark [] ('\n' :: t) =
      '\n' :: Text.replaceAll Method.overrideMark [] t := rfl

/-- Where no line ends like a mark there is no mark to take away. -/
theorem replaceAll_unlines {ls : List Text} (whole : ∀ line ∈ ls, line.OneLine)
    (closed : ∀ line ∈ ls, IsClosed line) :
    Text.replaceAll Method.overrideMark [] (Text.unlines ls) = Text.unlines ls := by
  induction ls with
  | nil => rfl
  | cons line rest ih =>
      have below := ih (fun l member => whole l (List.mem_cons_of_mem _ member))
        fun l member => closed l (List.mem_cons_of_mem _ member)
      obtain ⟨front, stop, rfl, lacks⟩ := closed line (by simp)
      have upper : '\n' ∉ front := fun feed =>
        (whole _ List.mem_cons_self).notMem_feed (List.mem_append_left _ feed)
      have past : ∀ behind :
          Text, Text.replaceAll Method.overrideMark [] (front ++ stop :: behind) =
          front ++ stop :: Text.replaceAll Method.overrideMark [] behind := fun _ =>
        Text.replaceAll_append [] (by decide) upper lacks
      cases rest with
      | nil =>
          rw [Text.unlines_singleton, past]
          rfl
      | cons next more =>
          rw [Text.unlines_cons_cons, List.append_assoc, List.singleton_append, past,
            replaceAll_feed, below]

/-! ## The members as lines -/

theorem unlines_callLines {indent name : Text} {args : List Argument} (filled : args ≠ [])
    {rest : List Text} (below : rest ≠ []) :
    Text.unlines (Argument.callLines indent name args ++ rest) =
      indent ++ "return ".toList ++ name ++ "(\n".toList ++
        Text.unlines (args.map fun a => indent ++ (indent ++ a.text ++ ",".toList)) ++
          "\n".toList ++ indent ++
          ");\n".toList ++ Text.unlines rest := by
  have some : (args.map fun a => indent ++ (indent ++ a.text ++ ",".toList)) ≠ [] := by
    simpa using filled
  rw [Argument.callLines, List.cons_append, Text.unlines_cons (by simp),
    List.append_assoc (args.map _), Text.unlines_append some (by simp), List.singleton_append,
    Text.unlines_cons below]
  simp

variable (s : Surroundings)

/-- The parameters of `copyWith`, each on a line. -/
def copyParams (s : Surroundings) (c : ClassDecl) : List Text :=
  c.fields.map fun f => s.indent ++ (Method.optionalType f ++ " ".toList ++ f.name) ++ ",".toList

theorem items_arguments (kind : MemberKind) (indent : Text) :
    Method.items indent
      (c.fields.map fun f => Method.argument c.namedFields f.name (passedValue s f kind)) =
      (argumentsFor s c kind).map fun a => indent ++ a.text ++ ",".toList := by
  rw [Method.items, argumentsFor, List.map_map, List.map_map]
  rfl

theorem copyWith_eq_unlines (filled : c.fields ≠ []) : Method.copyWith s.indent c =
    Text.unlines ((c.type ++ " copyWith(\x7b".toList) :: (copyParams s c ++ ("\x7d) \x7b".toList ::
      (Argument.callLines s.indent c.name (argumentsFor s c .copyWith) ++ ["\x7d".toList])))) := by
  have params : copyParams s c ≠ [] := by simpa [copyParams] using filled
  have args : argumentsFor s c .copyWith ≠ [] := by simpa [argumentsFor] using filled
  have listed : Method.items s.indent
      (c.fields.map fun f => Method.optionalType f ++ " ".toList ++ f.name) =
      copyParams s c := by
    rw [Method.items, List.map_map]
    rfl
  have passed : (Method.items s.indent (c.fields.map fun f =>
      Method.argument c.namedFields f.name (f.name ++ " ?? this.".toList ++ f.name))).map
        (fun a => s.indent ++ a) =
      (argumentsFor s c .copyWith).map fun a => s.indent ++ (s.indent ++ a.text ++ ",".toList) := by
    rw [show (fun f : Field => Method.argument c.namedFields f.name
      (f.name ++ " ?? this.".toList ++ f.name)) = fun f =>
        Method.argument c.namedFields f.name (passedValue s f .copyWith) from rfl,
      items_arguments, List.map_map]
    rfl
  rw [Method.copyWith, listed, passed, Text.unlines_cons (by simp),
    Text.unlines_append params (by simp), Text.unlines_cons (by simp [Argument.callLines]),
    unlines_callLines args (by simp), Text.unlines_singleton]
  simp

theorem fromMap_eq_unlines : Method.fromMap s.indent s.style.mapDefaults s.fromJson c =
    Text.unlines (("factory ".toList ++ c.name ++
      ".fromMap(Map<String, dynamic> map) \x7b".toList) ::
      (Argument.callLines s.indent c.name (argumentsFor s c .fromMap) ++ ["\x7d".toList])) := by
  have passed : Method.items s.indent (c.fields.map fun f =>
      Method.argument c.namedFields f.name (Method.decoded s.style.mapDefaults s.fromJson f)) =
      (argumentsFor s c .fromMap).map fun a => s.indent ++ a.text ++ ",".toList :=
    items_arguments s .fromMap s.indent
  rw [Method.fromMap, passed, Method.block, Method.enclosed, Argument.callLines]
  simp [Function.comp_def]

/-! ## The members in a class -/

variable {s} {text : Text} (member : c ∈ scan text) (valid : c.isValid) (noFeed : '\n' ∉ s.indent)

theorem isClosed_append (front : Text) {ending : Text} (closed : IsClosed ending) :
    IsClosed (front ++ ending) := by
  obtain ⟨start, stop, rfl, lacks⟩ := closed
  exact ⟨front ++ start, stop, by simp, lacks⟩

theorem isClosed_comma : IsClosed ",".toList := ⟨[], ',', rfl, by decide⟩

include member in
theorem oneLine_passedValue {f : Field} (field : f ∈ c.fields) (kind : MemberKind) :
    (passedValue s f kind).OneLine := by
  obtain ⟨named, key, type⟩ := oneLine_of_mem_scan member f field
  have read := Method.oneLine_decoded (TypeExpr.oneLine_parse type) key
      s.style.mapDefaults s.fromJson
  cases kind with
  | copyWith => exact (named.append (by decide)).append named
  | _ => exact read

include member in
theorem oneLine_argument (kind : MemberKind) : ∀ a ∈ argumentsFor s c kind, a.text.OneLine := by
  intro a listed
  obtain ⟨f, field, rfl⟩ := List.mem_map.mp listed
  have value := oneLine_passedValue (s := s) member field kind
  rw [Argument.text]
  split
  · exact ((oneLine_of_mem_scan member f field).1.append (by decide)).append value
  · exact value

include member noFeed in
theorem callLines_whole (kind : MemberKind) :
    ∀ line ∈ Argument.callLines s.indent c.name (argumentsFor s c kind) ++ ["\x7d".toList],
      line.OneLine ∧ IsClosed line := by
  have indent : s.indent.OneLine := Text.oneLine_iff.mpr noFeed
  have name : c.name.OneLine := Text.oneLine_iff.mpr (isLabel_of_mem_scan member).1
  simp only [Argument.callLines, List.cons_append, List.mem_cons, List.mem_append, List.not_mem_nil,
    or_false]
  rintro line (rfl | (inside | rfl) | rfl)
  · exact ⟨((indent.append (by decide)).append name).append (by decide),
      isClosed_append _ ⟨[], '(', rfl, by decide⟩⟩
  · obtain ⟨a, listed, rfl⟩ := List.mem_map.mp inside
    have argument := oneLine_argument (s := s) member kind a listed
    exact ⟨indent.append ((indent.append argument).append (by decide)),
      isClosed_append _ (isClosed_append _ isClosed_comma)⟩
  · exact ⟨indent.append (by decide), isClosed_append _ ⟨[')'], ';', rfl, by decide⟩⟩
  · exact ⟨by decide, [], '\x7d', rfl, by decide⟩

include member valid noFeed in
/-- A member that calls the constructor is made of lines, and the call comes last. -/
theorem exists_call {kind : MemberKind} (calls : kind = .copyWith ∨ kind = .fromMap) :
    ∃ above, methodText s c kind =
        Text.unlines (above ++
          (Argument.callLines s.indent c.name (argumentsFor s c kind) ++ ["\x7d".toList])) ∧
      ∀ line ∈ above, line.OneLine ∧ IsClosed line := by
  have indent : s.indent.OneLine := Text.oneLine_iff.mpr noFeed
  have filled : c.fields ≠ [] := by simpa [ClassDecl.fieldNames] using (distinct_of_isValid valid).1
  rcases calls with rfl | rfl
  · refine ⟨(c.type ++ " copyWith(\x7b".toList) :: (copyParams s c ++ ["\x7d) \x7b".toList]), ?_,
      ?_⟩
    · rw [show methodText s c .copyWith = _ from copyWith_eq_unlines s filled]
      simp
    · simp only [List.mem_cons, List.mem_append, List.not_mem_nil, or_false]
      rintro line (rfl | inside | rfl)
      · exact ⟨(Text.oneLine_iff.mpr (notMem_type member)).append (by decide),
          isClosed_append _ ⟨" copyWith(".toList, '\x7b', rfl, by decide⟩⟩
      · obtain ⟨f, field, rfl⟩ := List.mem_map.mp inside
        obtain ⟨named, -, type⟩ := oneLine_of_mem_scan member f field
        have optional : (Method.optionalType f).OneLine := by
          rw [Method.optionalType]
          split
          · exact type
          · exact type.append (by decide)
        exact ⟨(indent.append ((optional.append (by decide)).append named)).append (by decide),
          isClosed_append _ isClosed_comma⟩
      · exact ⟨by decide, "\x7d) ".toList, '\x7b', rfl, by decide⟩
  · refine ⟨["factory ".toList ++ c.name ++ ".fromMap(Map<String, dynamic> map) \x7b".toList], ?_,
      ?_⟩
    · rw [show methodText s c .fromMap = _ from fromMap_eq_unlines s]
      rfl
    · intro line inside
      rw [List.mem_singleton.mp inside]
      have name : c.name.OneLine := Text.oneLine_iff.mpr (isLabel_of_mem_scan member).1
      exact ⟨(Text.Only.append (by decide) name).append (by decide),
        isClosed_append _ ⟨".fromMap(Map<String, dynamic> map) ".toList, '\x7b', rfl, by decide⟩⟩

include member valid noFeed in
/-- In its class, with an old member in its place or without, the member calls the
    constructor with the arguments of all fields. -/
theorem calls_of_written {kind : MemberKind} (kinds : kind = .copyWith ∨ kind = .fromMap) :
    memberText s c kind = Text.indentBlock s.indent (methodText s c kind) ∧
      Calls s c kind (Text.indentBlock s.indent (methodText s c kind)) (argumentsFor s c kind) := by
  obtain ⟨above, written, upper⟩ := exists_call member valid noFeed kinds
  have each : ∀ line ∈
      above ++ (Argument.callLines s.indent c.name (argumentsFor s c kind) ++ ["\x7d".toList]),
      line.OneLine ∧ IsClosed line := fun line inside =>
    (List.mem_append.mp inside).elim (upper line) (callLines_whole member noFeed kind line)
  have method : kind ≠ .constructor := by rcases kinds with rfl | rfl <;> decide
  refine ⟨?_, ?_, ?_, above.map (indented s.indent), ["\x7d".toList].map (indented s.indent), ?_⟩
  · rw [memberText_of_method s c method, written,
      replaceAll_unlines (fun line inside => (each line inside).1) fun line inside =>
        (each line inside).2]
  · rw [argumentsFor, List.map_map]
    rfl
  · rw [argumentsFor, List.map_map]
    rfl
  · have solid : ∀ line ∈ Argument.callLines s.indent c.name (argumentsFor s c kind),
        indented s.indent line = s.indent ++ line := by
      simp only [Argument.callLines, List.mem_cons, List.mem_append, List.not_mem_nil, or_false]
      rintro line (rfl | inside | rfl)
      · exact indented_of_mem (c := '(') (by simp) (by decide) _
      · obtain ⟨a, -, rfl⟩ := List.mem_map.mp inside
        exact indented_of_mem (c := ',') (by simp) (by decide) _
      · exact indented_of_mem (c := ';') (by simp) (by decide) _
    rw [lines_indentBlock noFeed, written,
      Text.lines_unlines (by simp) fun line inside => (each line inside).1.notMem_feed,
      List.map_append, List.map_append, List.map_congr_left solid]

end Call

end ValueClass.Dart
