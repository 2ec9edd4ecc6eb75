import ValueClass.Proofs.Fresh.FieldLook

/-! # The methods of a fresh class

Every method that is written for a fresh class, with all that is known about its
lines.
-/

namespace ValueClass.Fresh

open Dart Dart.Line

namespace ClassText

variable (c : ClassText)

@[simp] theorem plain_name : c.plain.name = c.name := rfl

@[simp] theorem plain_type : c.plain.type = c.name := rfl

theorem plain_fields : c.plain.fields = c.fields.map (·.field 1) := rfl

theorem plain_fieldNames : c.plain.fieldNames = c.fields.map (·.name) := by
  rw [ClassDecl.fieldNames, plain_fields, List.map_map]
  rfl

theorem plain_namedFields : c.plain.namedFields = c.fields.map (·.name) :=
  c.plain_fieldNames

theorem light_name : c.name.all isLight :=
  c.isIdentifier.light

theorem argument_eq {f : FieldText} (member : f ∈ c.fields) (value : Text) :
    Method.argument c.plain.namedFields f.name value = f.nameLine ':' (' ' :: value) := by
  have named : c.plain.namedFields.contains f.name = true := by
    rw [List.contains_iff_mem, plain_namedFields]
    exact List.mem_map_of_mem member
  rw [Method.argument, if_pos named, FieldText.nameLine]
  simp

end ClassText

section Lines

variable {c : ClassText} {indent : Text} {kind : MemberKind}

theorem written_return {rest : Text} {weight : Int} (snippet : Snippet weight rest) :
    Written weight ("return".toList ++ ' ' :: rest) := by
  have := (snippet_light (t := "return ") (by decide)).append snippet
  rw [Int.zero_add] at this
  exact written_word this (by decide) (by decide) (by decide) (.inl (by decide))

theorem unlike_return {rest : Text} (method : kind ≠ .constructor) :
    ¬ Like c.name kind ("return".toList ++ ' ' :: rest) :=
  unlike_of_head (c := 'r') c.upper method (by decide) (by decide) (by decide)

theorem indented_indent {line : Text} (solid : line.isBlankText = false) :
    indented indent (indent ++ line) = (indent ++ indent) ++ line := by
  rw [indented_of_solid, List.append_assoc]
  rw [Text.isBlankText, List.all_append, Bool.and_eq_false_iff]
  exact .inr solid

theorem like_indent (ind : IsIndent indent) {line : Text} :
    Like c.name kind (indent ++ line) ↔ Like c.name kind line := by
  rw [Like, Like, Text.ink_append, Text.ink_of_isBlankText ind.blank, List.nil_append]

end Lines

/-! ## Copies -/

namespace ClassText

variable (c : ClassText) {indent : Text}

/-- The argument that a copy passes for a field. -/
def copyArgument (f : FieldText) : Text :=
  f.nameLine ':' (" ".toList ++ (f.name ++ (" ?? this.".toList ++ (f.name ++ ",".toList))))

theorem map_fields_ne_nil {α : Type} (g : FieldText → α) : c.fields.map g ≠ [] := by
  simp [c.nonempty]

def copyInner (indent : Text) : List Text :=
  c.fields.map (fun f => indent ++ f.paramLine) ++
    (["\x7d) \x7b".toList, indent ++ ("return".toList ++ ' ' :: (c.name ++ "(".toList))] ++
      (c.fields.map (fun f => indent ++ (indent ++ copyArgument f)) ++ [indent ++ ");".toList]))

theorem copyWith_eq : Method.copyWith indent c.plain =
    Text.unlines ((c.name ++ ' ' :: "copyWith(\x7b".toList) ::
      (c.copyInner indent ++ ["\x7d".toList])) := by
  have params : Method.items indent
      (c.plain.fields.map fun f => Method.optionalType f ++ " ".toList ++ f.name) =
      c.fields.map fun f => indent ++ f.paramLine := by
    rw [Method.items, plain_fields, List.map_map, List.map_map]
    apply List.map_congr_left
    intro f _
    simp only [Function.comp_apply, FieldText.paramLine, List.append_assoc]
    rfl
  have args : ((Method.items indent (c.plain.fields.map fun f =>
      Method.argument c.plain.namedFields f.name (f.name ++ " ?? this.".toList ++ f.name))).map
        fun a => indent ++ a) = c.fields.map fun f => indent ++ (indent ++ copyArgument f) := by
    rw [Method.items, plain_fields, List.map_map, List.map_map, List.map_map]
    apply List.map_congr_left
    intro f member
    simp only [Function.comp_apply]
    rw [show (f.field 1).name = f.name from rfl, c.argument_eq member, FieldText.nameLine,
      copyArgument, FieldText.nameLine]
    simp only [List.append_assoc, List.cons_append]
    rfl
  have joined : Text.unlines
      ((c.name ++ ' ' :: "copyWith(\x7b".toList) :: (c.copyInner indent ++ ["\x7d".toList])) =
      (c.name ++ ' ' :: "copyWith(\x7b".toList) ++ '\n' ::
        (Text.unlines (c.fields.map fun f => indent ++ f.paramLine) ++ '\n' ::
          ("\x7d) \x7b".toList ++ '\n' ::
          ((indent ++ ("return".toList ++ ' ' :: (c.name ++ "(".toList))) ++ '\n' ::
            (Text.unlines (c.fields.map fun f => indent ++ (indent ++ copyArgument f)) ++ '\n' ::
              ((indent ++ ");".toList) ++ '\n' :: "\x7d".toList))))) := by
    rw [copyInner, List.append_assoc, List.append_assoc, List.append_assoc, List.singleton_append,
      List.cons_append, List.singleton_append, Text.unlines_cons (by simp [c.nonempty]),
      Text.unlines_append (c.map_fields_ne_nil _) (by simp), Text.unlines_cons_cons,
      Text.unlines_cons (by simp), Text.unlines_append (c.map_fields_ne_nil _) (by simp),
      Text.unlines_cons_cons, Text.unlines_singleton]
  rw [joined]
  unfold Method.copyWith
  dsimp only
  rw [params, args, plain_type, plain_name]
  simp only [List.append_assoc, List.cons_append]
  rfl

theorem written_copyArgument (f : FieldText) : Written 0 (copyArgument f) := by
  apply f.written_nameLine _ (by decide) (by decide)
  apply snippet_light
  rw [List.all_cons, List.all_append, List.all_append, List.all_append, List.all_append,
    f.isIdentifier.light]
  decide

theorem mem_copyInner {line : Text} (member : line ∈ c.copyInner indent) :
    (∃ f ∈ c.fields, line = indent ++ f.paramLine) ∨ line = "\x7d) \x7b".toList ∨
      line = indent ++ ("return".toList ++ ' ' :: (c.name ++ "(".toList)) ∨
      (∃ f ∈ c.fields, line = indent ++ (indent ++ copyArgument f)) ∨
        line = indent ++ ");".toList := by
  simp only [copyInner, List.mem_append, List.mem_map, List.mem_cons, List.not_mem_nil,
    or_false] at member
  rcases member with ⟨f, inside, rfl⟩ | (rfl | rfl) | ⟨f, inside, rfl⟩ | rfl
  · exact .inl ⟨f, inside, rfl⟩
  · exact .inr (.inl rfl)
  · exact .inr (.inr (.inl rfl))
  · exact .inr (.inr (.inr (.inl ⟨f, inside, rfl⟩)))
  · exact .inr (.inr (.inr (.inr rfl)))

theorem written_copyInner (ind : IsIndent indent) {line : Text}
    (member : line ∈ c.copyInner indent) :
    Written 0 line := by
  rcases c.mem_copyInner member with ⟨f, -, rfl⟩ | rfl | rfl | ⟨f, -, rfl⟩ | rfl
  · exact f.written_paramLine.indent ind.blank ind.light
  · exact written_mark (snippet_of_unquoted (by decide) (by decide)) (by decide)
      (by decide) (by decide)
  · have call := (snippet_light c.light_name).append (snippet_light (t := "(") (by decide))
    exact (written_return call).indent ind.blank ind.light
  · exact ((written_copyArgument f).indent ind.blank ind.light).indent ind.blank ind.light
  · exact (written_mark (snippet_light (by decide)) (by decide) (by decide) (by decide)).indent
      ind.blank
      ind.light

theorem unlike_copyInner (ind : IsIndent indent) {line : Text}
    (member : line ∈ c.copyInner indent) {kind : MemberKind} (method : kind ≠ .constructor)
    (apart : kind = .hashCode → ¬ c.exposes .copyWith) :
    ¬ Like c.name kind line := by
  rcases c.mem_copyInner member with ⟨f, inside, rfl⟩ | rfl | rfl | ⟨f, inside, rfl⟩ | rfl
  · rw [like_indent ind]
    exact f.unlike_paramLine method fun hash starts => apart hash (.inl ⟨f, inside, starts⟩)
  · exact unlike_of_head c.upper method (by decide) (by decide) (by decide)
  · rw [like_indent ind]
    exact unlike_return method
  · rw [like_indent ind, like_indent ind]
    exact f.unlike_nameLine method (by decide) (by decide) (by decide)
      fun hash starts => apart hash (.inr ⟨f, inside, starts⟩)
  · rw [like_indent ind]
    exact unlike_of_head c.upper method (by decide) (by decide) (by decide)

theorem copyArgument_goesOn (f : FieldText) : GoesOn (copyArgument f) := by
  refine ⟨f.nameLine ':' (" ".toList ++ (f.name ++ (" ?? this.".toList ++ f.name))), ',',
    ?_, by decide, by decide⟩
  simp only [copyArgument, FieldText.nameLine, List.append_assoc, List.cons_append]
  rfl

theorem copyInner_goesOn : ∀ line ∈ (c.copyInner indent).dropLast, GoesOn line := by
  intro line member
  have whole : c.copyInner indent =
      c.fields.map (fun f => indent ++ f.paramLine) ++
        (["\x7d) \x7b".toList, indent ++ ("return".toList ++ ' ' :: (c.name ++ "(".toList))] ++
          c.fields.map (fun f => indent ++ (indent ++ copyArgument f))) ++
            [indent ++ ");".toList] := by
    simp only [copyInner, List.append_assoc]
  rw [whole, List.dropLast_concat] at member
  simp only [List.mem_append, List.mem_map, List.mem_cons, List.not_mem_nil, or_false] at member
  rcases member with ⟨f, -, rfl⟩ | (rfl | rfl) | ⟨f, -, rfl⟩
  · exact f.paramLine_goesOn.append indent
  · exact goesOn_concat (a := "\x7d) ".toList) (by decide) (by decide)
  · exact (((goesOn_concat (a := []) (d := '(') (by decide) (by decide)).append c.name).append
      "return ".toList).append indent
  · exact ((copyArgument_goesOn f).append indent).append indent

theorem copyWith_sheet (ind : IsIndent indent) :
    Sheet c indent (Method.copyWith indent c.plain) .copyWith
      (c.name ++ ' ' :: "copyWith(\x7b".toList)
      (c.copyInner indent ++ ["\x7d".toList]) := by
  have first : Written 1 (c.name ++ ' ' :: "copyWith(\x7b".toList) := by
    have behind : Snippet 1 " copyWith(\x7b" := snippet_of_unquoted (by decide) (by decide)
    have whole := (snippet_light c.light_name).append behind
    exact written_word whole c.isIdentifier.wordChars c.isIdentifier.ne_nil (by decide)
      (.inl c.notMem_openers)
  refine sheet_block ind c.copyWith_eq first c.isIdentifier.wordChars
    c.isIdentifier.ne_nil (by decide)
    (by decide) c.name_ne_const (.inr ?_) (fun line member => ⟨0, c.written_copyInner ind member⟩)
    (deep_level ind (fun line member => c.written_copyInner ind member) (by decide)) ?_ ?_ ?_
    (calm_of_goesOn ind (fun line member => c.written_copyInner ind member) c.copyInner_goesOn)
  · rw [List.mem_append, not_or]
    exact ⟨c.isIdentifier.notMem (by decide), by decide⟩
  · rw [Like, Text.ink_append, c.isIdentifier.ink]
    refine ⟨"\x7b".toList, ?_⟩
    show c.name ++ "copyWith".toList ++ "(".toList ++ "\x7b".toList = _
    simp only [List.append_assoc]
    rfl
  · intro line member later method _ apart
    exact c.unlike_copyInner ind member method apart
  · exact (goesOn_concat (a := " copyWith(".toList) (by decide) (by decide)).append c.name

end ClassText

/-! ## Blocks -/

/-- The lines of the body of a block, one level in. -/
def bodyLines (indent : Text) (body : List Text) : List Text :=
  body.map fun line => if line.isEmpty then line else indent ++ line

theorem block_eq (indent signature : Text) (body : List Text) :
    Method.block indent signature body =
      Text.unlines ((signature ++ " \x7b") :: (bodyLines indent body ++ ["\x7d".toList])) := rfl

section Blocks

variable {c : ClassText} {indent : Text} {kind : MemberKind}

theorem mem_bodyLines {body : List Text} {line : Text} (member : line ∈ bodyLines indent body) :
    ∃ old ∈ body, line = old ∨ line = indent ++ old := by
  obtain ⟨old, inside, rfl⟩ := List.mem_map.mp member
  refine ⟨old, inside, ?_⟩
  split
  · exact .inl rfl
  · exact .inr rfl

theorem mem_indented_bodyLines (ind : IsIndent indent) {body : List Text} {line : Text}
    (member : line ∈ (bodyLines indent body).map (indented indent)) :
    ∃ old ∈ body, line.isBlankText ∨ line = (indent ++ indent) ++ old := by
  obtain ⟨_, inside, rfl⟩ := List.mem_map.mp member
  obtain ⟨old, known, rfl⟩ := List.mem_map.mp inside
  refine ⟨old, known, ?_⟩
  by_cases blank : old.isBlankText
  · left
    have whole : Text.isBlankText (if old.isEmpty then old else indent ++ old) := by
      split
      · exact blank
      · rw [Text.isBlankText, List.all_append, Bool.and_eq_true]
        exact ⟨ind.blank, blank⟩
    rwa [indented, if_pos whole]
  · right
    have nonempty : old.isEmpty = false := by
      cases old with
      | nil => exact absurd rfl blank
      | cons d rest => rfl
    rw [nonempty]
    exact indented_indent (by simpa using blank)

theorem written_bodyLines (ind : IsIndent indent) {body : List Text}
    (each : ∀ line ∈ body, Written 0 line) : ∀ line ∈ bodyLines indent body, Written 0 line := by
  intro line member
  obtain ⟨old, inside, rfl | rfl⟩ := mem_bodyLines member
  · exact each line inside
  · exact (each old inside).indent ind.blank ind.light

theorem unlike_bodyLines (ind : IsIndent indent) {body : List Text} {kind : MemberKind}
    (each : ∀ line ∈ body, ¬ Like c.name kind line) :
    ∀ line ∈ bodyLines indent body, ¬ Like c.name kind line := by
  intro line member
  obtain ⟨old, inside, rfl | rfl⟩ := mem_bodyLines member
  · exact each line inside
  · rw [like_indent ind]
    exact each old inside

theorem calm_bodyLines (ind : IsIndent indent) {body : List Text}
    (each : ∀ line ∈ body, Written 0 line) (on : ∀ line ∈ body.dropLast, GoesOn line) :
    Calm c.name true ((bodyLines indent body).map (indented indent)) := by
  refine calm_of_goesOn ind (written_bodyLines ind each) ?_
  intro line member
  rw [bodyLines, ← List.map_dropLast] at member
  obtain ⟨old, inside, rfl | rfl⟩ := mem_bodyLines member
  · exact on line inside
  · exact (on old inside).append indent

/-- A block whose lines open nothing. -/
theorem sheet_level (ind : IsIndent indent) {signature text w rest : Text} {d : Char}
    {body : List Text}
    (lines : text = (if isMarked kind then Method.overrideMark else []) ++
      Method.block indent signature body)
    (split : signature ++ " \x7b".toList = w ++ d :: rest) (h : Written 1 (w ++ d :: rest))
    (word : ∀ e ∈ w, isWordChar e) (nonempty : w ≠ []) (stop : isWordChar d = false)
    (other : d ≠ '(')
    (plain : w ≠ "const") (noArrow : '>' ∉ w ++ d :: rest ∨ '=' ∉ w ++ d :: rest)
    (each : ∀ line ∈ body, Written 0 line) (like : Like c.name kind (w ++ d :: rest))
    (unlike : ∀ line ∈ body, ∀ later, later ≠ .constructor → later ≠ kind →
      (later = .hashCode → ¬ c.exposes kind) → ¬ Like c.name later line)
    (calm : Calm c.name true ((bodyLines indent body).map (indented indent))) :
    Sheet c indent text kind (w ++ d :: rest) (bodyLines indent body ++ ["\x7d".toList]) := by
  have written := written_bodyLines ind each
  have on : GoesOn (w ++ d :: rest) := by
    rw [← split]
    exact (goesOn_concat (a := " ".toList) (by decide) (by decide)).append signature
  refine sheet_block ind ?_ h word nonempty stop other plain noArrow
    (fun line member => ⟨0, written line member⟩) (deep_level ind written (by decide))
      like ?_ on calm
  · rw [lines, block_eq, split]
  · intro line member later method differ apart
    exact unlike_bodyLines ind (fun old inside => unlike old inside later method differ apart) line
      member

theorem mem_enclosed {open_ close_ line : Text} {ls : List Text}
    (member : line ∈ Method.enclosed open_ ls close_) :
    line = open_ ∨ line ∈ ls ∨ line = close_ := by
  simpa [Method.enclosed] using member

theorem dropLast_enclosed {open_ close_ : Text} {ls : List Text} :
    (Method.enclosed open_ ls close_).dropLast = open_ :: ls := by
  rw [Method.enclosed, ← List.cons_append, List.dropLast_concat]

theorem mem_items {texts : List Text} {line : Text} (member : line ∈ Method.items indent texts) :
    ∃ t ∈ texts, line = indent ++ (t ++ [',']) := by
  obtain ⟨t, inside, rfl⟩ := List.mem_map.mp member
  exact ⟨t, inside, by rw [List.append_assoc]; rfl⟩

end Blocks

/-! ## Codecs -/

namespace ClassText

variable (c : ClassText) {indent : Text}

def mapEntry (fromJson : Bool) (f : FieldText) : Text :=
  '\'' :: (f.name ++ "': ".toList ++ Codec.encode fromJson (f.field 1) f.name)

theorem written_mapEntry (fromJson : Bool) (f : FieldText) :
    Written 0 (mapEntry fromJson f ++ [',']) := by
  have literal := snippet_literal f.isIdentifier.light
  have encoded := Method.snippet_encoded fromJson (f := f.field 1) rfl f.isIdentifier.light
  have whole := ((literal.append (snippet_light (t := ": ") (by decide))).append encoded).append
    (snippet_light (t := ",") (by decide))
  have same : mapEntry fromJson f ++ [','] =
      '\'' :: (f.name ++ ['\'']) ++ ": ".toList ++ Codec.encode fromJson (f.field 1) f.name ++
        ",".toList := by
    simp [mapEntry]
  have solid : Snippet 0 (mapEntry fromJson f ++ [',']) := by
    rw [same]
    exact whole
  exact written_mark solid (by decide) (by decide) (by decide)

def mapInner (indent : Text) (fromJson : Bool) : List Text :=
  (indent ++ ("return".toList ++ ' ' :: "\x7b".toList)) ::
    (c.fields.map (fun f => indent ++ (indent ++ (mapEntry fromJson f ++ [',']))) ++
      [indent ++ "\x7d;".toList])

theorem toMap_eq (fromJson : Bool) : Method.toMap indent fromJson c.plain =
    Text.unlines (("Map".toList ++ '<' :: "String, dynamic> toMap() \x7b".toList) ::
      (c.mapInner indent fromJson ++ ["\x7d".toList])) := by
  have entries : Method.items indent (c.plain.fields.map fun f =>
      "'".toList ++ f.key ++ "': ".toList ++ Codec.encode fromJson f f.name) =
      c.fields.map fun f => indent ++ (mapEntry fromJson f ++ [',']) := by
    rw [Method.items, plain_fields, List.map_map, List.map_map]
    apply List.map_congr_left
    intro f _
    simp only [Function.comp_apply, mapEntry, List.append_assoc, List.cons_append]
    rfl
  have body : bodyLines indent (Method.enclosed "return \x7b".toList
      (c.fields.map fun f => indent ++ (mapEntry fromJson f ++ [','])) "\x7d;".toList) =
      c.mapInner indent fromJson := by
    have nonempty : ∀ f :
        FieldText, (indent ++ (mapEntry fromJson f ++ [','])).isEmpty = false := by
      simp
    simp only [bodyLines, Method.enclosed, List.map_cons, List.map_append, List.map_map,
      List.map_nil, Function.comp_def, nonempty, mapInner]
    rfl
  unfold Method.toMap
  dsimp only
  rw [entries, block_eq, body]
  rfl

theorem opening_mapInner (ind : IsIndent indent) :
    Written 1 (indent ++ ("return".toList ++ ' ' :: "\x7b".toList)) :=
  (written_return (snippet_of_unquoted (by decide) (by decide))).indent ind.blank ind.light

theorem written_mapClosing : Written (-1) "\x7d;".toList :=
  written_mark (snippet_of_unquoted (by decide) (by decide)) (by decide) (by decide) (by decide)

theorem entries_mapInner (ind : IsIndent indent) (fromJson : Bool) :
    ∀ line ∈ c.fields.map (fun f => indent ++ (indent ++ (mapEntry fromJson f ++ [',']))),
      Written 0 line := by
  intro line member
  obtain ⟨f, -, rfl⟩ := List.mem_map.mp member
  exact ((written_mapEntry fromJson f).indent ind.blank ind.light).indent ind.blank ind.light

-- The first line and the last one stand for themselves, and the entries in the shelter between
-- them.
theorem calm_mapInner (ind : IsIndent indent) (fromJson : Bool) :
    Calm c.name true ((c.mapInner indent fromJson).map (indented indent)) := by
  have opening := (opening_mapInner ind).indented ind.blank ind.light
  have on : GoesOn (indented indent (indent ++ ("return".toList ++ ' ' :: "\x7b".toList))) :=
    ((goesOn_concat (a := "return ".toList) (by decide) (by decide)).append indent).indented indent
  have closing := (written_mapClosing.indent ind.blank ind.light).indented ind.blank ind.light
  rw [mapInner, List.map_cons, List.map_append, List.map_singleton]
  refine .cons (mild_of_written opening (by decide) (by decide)) (.inl ⟨?_, ?_⟩) ?_
  · rw [indented_indent (by decide)]
    exact c.opensConstructor_of_head ((ind.append ind).trim (solid_of_all (by decide) (by decide)))
      (by decide) (by decide)
  · intro level
    rw [opening.raw] at level
    omega
  · rw [on.shelters (.inl opening.raw)]
    refine .append (calm_of_goesOn ind (c.entries_mapInner ind fromJson) ?_)
      (.singleton (mild_of_written closing (by decide) (by decide)) ?_)
    · intro line member
      obtain ⟨f, -, rfl⟩ := List.mem_map.mp (List.dropLast_subset _ member)
      exact ((goesOn_concat (by decide) (by decide)).append indent).append indent
    · rw [indented_indent (by decide)]
      exact tame_closing (ind.append ind) written_mapClosing (solid_of_all (by decide) (by decide))

theorem toMap_sheet (ind : IsIndent indent) (fromJson : Bool) :
    Sheet c indent (Method.toMap indent fromJson c.plain) .toMap
      ("Map".toList ++ '<' :: "String, dynamic> toMap() \x7b".toList)
      (c.mapInner indent fromJson ++ ["\x7d".toList]) := by
  have opening := opening_mapInner ind
  have closing := written_mapClosing.indent ind.blank ind.light
  have entries := c.entries_mapInner ind fromJson
  refine sheet_block ind (c.toMap_eq fromJson) ?_ (by decide) (by decide) (by decide)
    (by decide) (by decide)
    (.inr (by decide)) ?_ ?_ ⟨"\x7b".toList, rfl⟩ ?_ ?_ ?_
  · exact written_word (snippet_of_unquoted (by decide) (by decide)) (by decide)
      (by decide) (by decide)
      (.inl (by decide))
  · intro line member
    simp only [mapInner, List.mem_cons, List.mem_append, List.not_mem_nil, or_false] at member
    rcases member with rfl | member | rfl
    · exact ⟨1, opening⟩
    · exact ⟨0, entries line member⟩
    · exact ⟨-1, closing⟩
  · rw [mapInner, List.map_cons, List.map_append, List.map_singleton]
    refine .append (a :=
      [_]) (ClassDecl.deep_singleton (opening.indented ind.blank ind.light) rfl (by decide)) ?_
    refine .append (deep_level ind entries (by decide)) ?_
    exact ClassDecl.deep_singleton (closing.indented ind.blank ind.light) rfl (by decide)
  · intro line member later method _ _
    simp only [mapInner, List.mem_cons, List.mem_append, List.mem_map, List.not_mem_nil,
      or_false] at member
    rcases member with rfl | ⟨f, -, rfl⟩ | rfl
    · rw [like_indent ind]
      exact unlike_return method
    · rw [like_indent ind, like_indent ind]
      exact unlike_of_head c.upper method (by decide) (by decide) (by decide)
    · rw [like_indent ind]
      exact unlike_of_head c.upper method (by decide) (by decide) (by decide)
  · exact goesOn_concat (a := "Map<String, dynamic> toMap() ".toList) (by decide) (by decide)
  · exact c.calm_mapInner ind fromJson

/-- The argument that is read back for a field. -/
def mapArgument (mapDefaults fromJson : Bool) (f : FieldText) : Text :=
  f.nameLine ':' (' ' :: (Method.decoded mapDefaults fromJson (f.field 1) ++ [',']))

theorem written_mapArgument (mapDefaults fromJson : Bool) (f : FieldText) :
    Written 0 (mapArgument mapDefaults fromJson f) := by
  have decoded := Method.snippet_decoded mapDefaults fromJson (f := f.field 1) rfl f.type.light_text
    f.isIdentifier.light
  have whole := (snippet_light (t := ": ") (by decide)).append
    (decoded.append (snippet_light (t := ",") (by decide)))
  exact f.written_nameLine whole (by decide) (by decide)

def mapBody (indent : Text) (mapDefaults fromJson : Bool) : List Text :=
  Method.enclosed ("return".toList ++ ' ' :: (c.name ++ "(".toList))
    (c.fields.map fun f => indent ++ mapArgument mapDefaults fromJson f) ");".toList

theorem fromMap_eq (mapDefaults fromJson : Bool) :
    Method.fromMap indent mapDefaults fromJson c.plain =
      Method.block indent
        ("factory ".toList ++ c.name ++ ".fromMap(Map<String, dynamic> map)".toList)
        (c.mapBody indent mapDefaults fromJson) := by
  have args : Method.items indent (c.plain.fields.map fun f =>
      Method.argument c.plain.namedFields f.name (Method.decoded mapDefaults fromJson f)) =
      c.fields.map fun f => indent ++ mapArgument mapDefaults fromJson f := by
    rw [Method.items, plain_fields, List.map_map, List.map_map]
    apply List.map_congr_left
    intro f member
    simp only [Function.comp_apply]
    rw [show (f.field 1).name = f.name from rfl, c.argument_eq member, FieldText.nameLine,
      mapArgument, FieldText.nameLine]
    simp only [List.append_assoc, List.cons_append]
    rfl
  unfold Method.fromMap
  dsimp only
  rw [args, mapBody, plain_name]
  rfl

theorem mem_mapBody {mapDefaults fromJson : Bool} {line : Text}
    (member : line ∈ c.mapBody indent mapDefaults fromJson) :
    line = "return".toList ++ ' ' :: (c.name ++ "(".toList) ∨
      (∃ f ∈ c.fields, line = indent ++ mapArgument mapDefaults fromJson f) ∨
        line = ");".toList := by
  rcases mem_enclosed member with rfl | member | rfl
  · exact .inl rfl
  · obtain ⟨f, inside, rfl⟩ := List.mem_map.mp member
    exact .inr (.inl ⟨f, inside, rfl⟩)
  · exact .inr (.inr rfl)

theorem written_mapBody (ind : IsIndent indent) (mapDefaults fromJson : Bool) :
    ∀ line ∈ c.mapBody indent mapDefaults fromJson, Written 0 line := by
  intro line member
  rcases c.mem_mapBody member with rfl | ⟨f, -, rfl⟩ | rfl
  · exact written_return
      ((snippet_light c.light_name).append (snippet_light (t := "(") (by decide)))
  · exact (written_mapArgument mapDefaults fromJson f).indent ind.blank ind.light
  · exact written_mark (snippet_light (by decide)) (by decide) (by decide) (by decide)

theorem unlike_mapBody (ind : IsIndent indent) {mapDefaults fromJson : Bool} {line : Text}
    (member : line ∈ c.mapBody indent mapDefaults fromJson) {kind : MemberKind}
    (method : kind ≠ .constructor) (apart : kind = .hashCode → ¬ c.exposes .fromMap) :
    ¬ Like c.name kind line := by
  rcases c.mem_mapBody member with rfl | ⟨f, inside, rfl⟩ | rfl
  · exact unlike_return method
  · rw [like_indent ind]
    exact f.unlike_nameLine method (by decide) (by decide) (by decide)
      fun hash starts => apart hash ⟨f, inside, starts⟩
  · exact unlike_of_head c.upper method (by decide) (by decide) (by decide)

theorem mapBody_goesOn (mapDefaults fromJson : Bool) :
    ∀ line ∈ (c.mapBody indent mapDefaults fromJson).dropLast, GoesOn line := by
  intro line member
  rw [mapBody, dropLast_enclosed] at member
  rcases List.mem_cons.mp member with rfl | member
  · exact ((goesOn_concat (a := []) (d := '(') (by decide) (by decide)).append c.name).append
      "return ".toList
  · obtain ⟨f, -, rfl⟩ := List.mem_map.mp member
    refine GoesOn.append ?_ indent
    refine ⟨f.nameLine ':' (' ' :: Method.decoded mapDefaults fromJson (f.field 1)), ',',
      ?_, by decide, by decide⟩
    simp only [mapArgument, FieldText.nameLine, List.append_assoc, List.cons_append]

theorem fromMap_sheet (ind : IsIndent indent) (mapDefaults fromJson : Bool) :
    Sheet c indent (Method.fromMap indent mapDefaults fromJson c.plain) .fromMap
      ("factory".toList ++ ' ' :: (c.name ++ ".fromMap(Map<String, dynamic> map) \x7b".toList))
      (bodyLines indent (c.mapBody indent mapDefaults fromJson) ++ ["\x7d".toList]) := by
  have first : Written 1
      ("factory".toList ++ ' ' :: (c.name ++ ".fromMap(Map<String, dynamic> map) \x7b".toList))
        := by
    have behind : Snippet 1 ".fromMap(Map<String, dynamic> map) \x7b" :=
      snippet_of_unquoted (by decide) (by decide)
    have whole := (snippet_light (t := "factory ") (by decide)).append
        ((snippet_light c.light_name).append behind)
    exact written_word whole (by decide) (by decide) (by decide) (.inl (by decide))
  have lines : Method.fromMap indent mapDefaults fromJson c.plain =
      (if isMarked .fromMap then Method.overrideMark else []) ++ Method.block indent
        ("factory ".toList ++ c.name ++ ".fromMap(Map<String, dynamic> map)".toList)
        (c.mapBody indent mapDefaults fromJson) := c.fromMap_eq mapDefaults fromJson
  refine sheet_level ind lines ?_ first (by decide) (by decide) (by decide)
    (by decide) (by decide) (.inr ?_) (c.written_mapBody ind mapDefaults fromJson) ?_ ?_
    (calm_bodyLines ind (c.written_mapBody ind mapDefaults fromJson)
      (c.mapBody_goesOn mapDefaults fromJson))
  · simp only [List.append_assoc]
    rfl
  · simp only [List.mem_append, List.mem_cons, not_or]
    exact ⟨by decide, by decide, c.isIdentifier.notMem (by decide), by decide⟩
  · rw [Like, Text.ink_append, Text.ink_cons_of_blank (by decide), Text.ink_append,
      c.isIdentifier.ink]
    refine ⟨"Map<String,dynamic>map)\x7b".toList, ?_⟩
    show "factory".toList ++ c.name ++ ".fromMap(".toList ++ _ = _
    simp only [List.append_assoc]
    rfl
  · intro line member later method _ apart
    exact c.unlike_mapBody ind member method apart

end ClassText

end ValueClass.Fresh
