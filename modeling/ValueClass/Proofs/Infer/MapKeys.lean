import ValueClass.Proofs.Dart.CodecLine
import ValueClass.Proofs.Dart.StringLiteral
import ValueClass.Proofs.Infer.MemberLines
import ValueClass.Proofs.Infer.PreOrder

/-! # Map keys

`toMap` writes the key of a field between single quotes and `fromMap` looks it up between
single quotes, as it is. Both are literals for the key exactly if every character of it
stands for itself there.
-/

namespace ValueClass

theorem Text.IsDeclared.oneLine {t : Text} (h : t.IsDeclared) : t.OneLine :=
  Text.oneLine_iff.mpr (h.notMem (by decide))

namespace Dart

open Text

/-! ## Values -/

namespace Codec

/-- What reads a value in a map stands around the value. -/
theorem exists_decodeType_eq (fromJson : Bool) {type : TypeExpr} (quiet : '\'' ∉ type.text) :
    ∃ front back : Text, '\'' ∉ front ∧
      ∀ value, decodeType fromJson type value = front ++ (value ++ back) := by
  have around : ∀ {read : Text → Text}
      (front back : Text), '\'' ∉ front → (∀ value, read value = front ++ value ++ back) →
      ∃ front back : Text, '\'' ∉ front ∧ ∀ value, read value = front ++ (value ++ back) :=
    fun front back none same => ⟨front, back, none, fun value => by rw [same, List.append_assoc]⟩
  have opened : ∀ {mark : Text}, '\'' ∉ mark → '\'' ∉ type.text ++ mark := by
    intro mark none
    simp [quiet, none]
  cases type with
  | scalar text nullable =>
      simp only [decodeType]
      cases Leaf.ofText text with
      | date =>
          cases fromJson with
          | false =>
              exact around "DateTime.fromMillisecondsSinceEpoch(" ")" (by decide) fun value => rfl
          | true => exact around "DateTime.parse(" ")" (by decide) fun value => rfl
      | color => exact around "Color(" ")" (by decide) fun value => rfl
      | icon =>
          exact around "IconData(" ", fontFamily: 'MaterialIcons')" (by decide) fun value => rfl
      | same =>
          show ∃ front back : Text, '\'' ∉ front ∧ ∀ value : Text,
            (if fromJson && text = "double" then value ++ "?.toDouble()".toList
              else if fromJson && text = "int" then value ++ "?.toInt()".toList else value) =
                front ++ (value ++ back)
          split
          · exact around [] "?.toDouble()" (by decide) fun value => rfl
          · split
            · exact around [] "?.toInt()" (by decide) fun value => rfl
            · exact around [] [] (by decide) fun value => (List.append_nil _).symm
      | nested => exact around (text ++ ".fromMap(") ")" (opened (by decide)) fun value => rfl
  | map text nullable => exact around (text ++ ".from(") ")" (opened (by decide)) fun value => rfl
  | list text nullable element | set text nullable element =>
      simp only [decodeType]
      split
      · exact around (text ++ ".from(") ")" (opened (by decide)) fun value => rfl
      · refine around (text ++ ".from(")
          (".map((x) => ".toList ++ decodeType fromJson element "x" ++ "))".toList)
          (opened (by decide)) fun value => ?_
        simp only [List.append_assoc]

end Codec

namespace Method

/-! ## Entries and arguments -/

def keyText (f : Field) : Text :=
  '\'' :: (f.key ++ ['\''])

def entry (fromJson : Bool) (f : Field) : Text :=
  keyText f ++ ": ".toList ++ Codec.encode fromJson f f.name

theorem toMap_entries (indent : Text) (fromJson : Bool) (c : ClassDecl) :
    toMap indent fromJson c = block indent "Map<String, dynamic> toMap()"
      (enclosed "return \x7b" (items indent (c.fields.map (entry fromJson))) "\x7d;") := by
  have same : ∀ f : Field, "'".toList ++ f.key ++ "': ".toList ++ Codec.encode fromJson f f.name =
      entry fromJson f := by
    intro f
    simp [entry, keyText]
  rw [toMap]
  simp only [same]

theorem mem_lines_block {indent line : Text} {body : List Text} (signature : Text)
    (listed : line ∈ body) (some : line ≠ []) (whole : OneLine (indent ++ line)) :
    indent ++ line ∈ (block indent signature body).lines := by
  refine mem_lines_unlines
    (List.mem_cons_of_mem _ (List.mem_append_left _ (List.mem_map_of_mem listed))) ?_
  rw [if_neg (by simpa using some), lines_of_notMem whole.notMem_feed]
  exact List.mem_singleton_self _

theorem mem_lines_item {indent text : Text} {texts : List Text} (signature first last : Text)
    (listed : text ∈ texts) (blank : indent.OneLine) (whole : text.OneLine) :
    indent ++ (indent ++ text ++ [',']) ∈
      (block indent signature (enclosed first (items indent texts) last)).lines := by
  refine mem_lines_block signature
    (List.mem_cons_of_mem _ (List.mem_append_left _ (List.mem_map_of_mem listed))) (by simp)
    (blank.append ((blank.append whole).append (by decide)))

variable {f : Field} (plain : f.isEnum = false)

include plain

theorem oneLine_entry (named : f.name.OneLine) (key : f.key.OneLine) (fromJson : Bool) :
    OneLine (entry fromJson f) := by
  have quote : OneLine ['\''] := by decide
  have written : OneLine (keyText f) := quote.append (key.append quote)
  rw [entry, Codec.encode, plain]
  exact (written.append (by decide : OneLine ": ")).append (Codec.oneLine_encodeType named)

/-- The key is looked up once before anything else is written in quotes. -/
theorem exists_decoded_eq (quiet : '\'' ∉ f.type.text) (mapDefaults fromJson : Bool) :
    ∃ front back : Text, '\'' ∉ front ∧
      decoded mapDefaults fromJson
        f = front ++ ("map[".toList ++ (keyText f ++ (']' :: back))) := by
  have value : "map['".toList ++ f.key ++ "']".toList = "map[".toList ++ (keyText f ++ [']']) := by
    simp [keyText]
  have read : ∃ front back : Text, '\'' ∉ front ∧ ∀ value, Codec.decode fromJson f value = front ++
      (value ++ back) := by
    simp only [Codec.decode, plain]
    exact Codec.exists_decodeType_eq fromJson quiet
  obtain ⟨front, back, none, read⟩ := read
  unfold decoded
  dsimp only
  rw [value]
  simp only [read]
  split
  · exact ⟨front ++ ['('], _, by
      simp [none], by simp only [List.append_assoc, List.cons_append, List.nil_append]; rfl⟩
  · split
    · split
      · exact ⟨front, back, none, by simp⟩
      · exact ⟨[],
          _, by simp, by simp only [List.append_assoc, List.cons_append, List.nil_append]; rfl⟩
    · split
      · exact ⟨front, _, none, by simp only [List.append_assoc,
          List.cons_append, List.nil_append]; rfl⟩
      · exact ⟨front, back, none, by simp⟩

end Method

/-- What is written for the key of a field denotes the key exactly if every character of it
    stands for itself. -/
structure KeyDenoted (mapDefaults : Bool) (f : Field) : Prop where
  /-- The entry in `toMap` starts with a literal for the key. -/
  entry : StringLiteral.first? (Method.entry true f) =
      some (StringLiteral.unitsOf f.key, ": ".toList ++ Codec.encode true f f.name) ↔
        StringLiteral.Verbatim f.key
  /-- The first literal of the argument in `fromMap` is the index, and a literal for the key. -/
  index : ∃ front back : Text, '\'' ∉ front ∧
    Method.decoded mapDefaults true f =
      front ++ ("map[".toList ++ (Method.keyText f ++ (']' :: back))) ∧
    (StringLiteral.first? (Method.decoded mapDefaults true f) =
      some (StringLiteral.unitsOf f.key, ']' :: back) ↔
      StringLiteral.Verbatim f.key)

theorem keyDenoted {f : Field} (plain : f.isEnum = false) (quiet : '\'' ∉ f.type.text)
    (mapDefaults : Bool) :
    KeyDenoted mapDefaults f where
  entry := by
    have shape : Method.entry true f = [] ++ '\'' ::
        (f.key ++ '\'' :: (": ".toList ++ Codec.encode true f f.name)) := by
      simp [Method.entry, Method.keyText]
    rw [shape]
    exact StringLiteral.first?_quoted_iff (by simp) (by simp)
  index := by
    obtain ⟨front, back, none, same⟩ := Method.exists_decoded_eq plain quiet mapDefaults true
    refine ⟨front, back, none, same, ?_⟩
    have shape : Method.decoded mapDefaults true f =
        (front ++ "map[".toList) ++ '\'' :: (f.key ++ '\'' :: (']' :: back)) := by
      simp [same, Method.keyText]
    rw [shape]
    exact StringLiteral.first?_quoted_iff (by simp [none]) (by simp)

end Dart

open Dart

namespace Infer

variable {style : Style} {test : DateTest} {indent named : Text}
  {members : List (Text × Json)} {f : Field}

theorem isDeclared_texts (listed : f ∈ (classFor style test indent named members).fields) :
    f.type.AllTexts Text.IsDeclared := by
  obtain ⟨key, value, line, -, rfl⟩ := exists_member_of_mem_fields listed
  have declared : (ObjectSketch.ofValue (dateRule style test) key value).1.spelled.all isDeclared :=
    List.all_eq_true.mpr (ObjectSketch.isDeclared_spelled key value)
  exact (TypeExpr.allTexts_parse (by decide) declared).imp fun t all => List.all_eq_true.mp all

theorem keyDenoted_of_mem_fields (listed : f ∈ (classFor style test indent named members).fields)
    (mapDefaults : Bool) :
    KeyDenoted mapDefaults f := by
  refine keyDenoted ?_ ((isDeclared_texts listed).text.notMem (by decide)) mapDefaults
  obtain ⟨key, value, line, -, rfl⟩ := exists_member_of_mem_fields listed
  rfl

/-- The lines of `toMap` and `fromMap` for a field whose key is on one line. -/
theorem mem_lines_methods {s : Surroundings} (blank : s.indent.OneLine)
    (inferred : s.fromJson = true)
    (listed : f ∈ (classFor style test indent named members).fields) (key : '\n' ∉ f.key) :
    let c := classFor style test indent named members
    s.indent ++ (s.indent ++ Method.entry true f ++ [',']) ∈ (methodText s c .toMap).lines ∧
      s.indent ++ (s.indent ++ Method.argument c.namedFields f.name
        (Method.decoded s.style.mapDefaults true f) ++ [',']) ∈
        (methodText s c .fromMap).lines := by
  intro c
  have whole := Text.oneLine_iff.mpr key
  have texts := (isDeclared_texts listed).imp fun t declared => declared.oneLine
  obtain ⟨plain, name⟩ : f.isEnum = false ∧ f.name.OneLine := by
    obtain ⟨named, value, line, -, rfl⟩ := exists_member_of_mem_fields listed
    exact ⟨rfl, (Name.isPlain_varName named).isDeclared.oneLine⟩
  constructor
  · show _ ∈ (Method.toMap s.indent s.fromJson c).lines
    rw [Method.toMap_entries, inferred]
    exact Method.mem_lines_item _ _ _ (List.mem_map_of_mem listed) blank
      (Method.oneLine_entry plain name whole true)
  · have decoded := Method.oneLine_decoded texts whole s.style.mapDefaults true
    show _ ∈ (Method.fromMap s.indent s.style.mapDefaults s.fromJson c).lines
    rw [Method.fromMap, inferred]
    refine Method.mem_lines_item _ _ _ (List.mem_map_of_mem listed) blank ?_
    rw [Method.argument]
    split
    · exact (name.append (by decide : Text.OneLine ": ")).append decoded
    · exact decoded

end Infer

namespace JsonRequest

variable {request : JsonRequest} {found : List ClassDecl}

/-- Every object that is visited has a class with its text, and every class has the keys of an
    object that is visited. What `toMap` and `fromMap` write for a key denotes the key exactly
    if every character of it stands for itself, and where no line ends in the key it is on a
    line of a file. -/
theorem mapKeys_denoted (accepted : request.inferred = .ok found) :
    ∃ indent root, Infer.Accepted request.style request.source indent root ∧
      (∀ named members, (named, members) ∈ (Json.obj root).visited request.rootName →
        ∃ d ∈ found, d.content =
          (Infer.classFor request.style request.dates indent named members).content) ∧
      (∀ c ∈ found, ∃ named members, (named, members) ∈ (Json.obj root).visited request.rootName ∧
        c = Infer.classFor request.style request.dates indent named members ∧
        c.fields.map (·.key) = members.map Prod.fst) ∧
      (∀ c ∈ found, ∀ f ∈ c.fields, KeyDenoted request.style.mapDefaults f) ∧
      ∀ before g after, request.generate.Returns before g after → ∀ c ∈ found, c.isValid →
        ∃ file ∈ g.files,
        ∀ f ∈ c.fields, '\n' ∉ f.key →
          (request.style.writesToMap →
            indent ++ (indent ++ (indent ++ Method.entry true f ++ [','])) ∈ file.content.lines) ∧
          (request.style.writesFromMap →
            indent ++ (indent ++ (indent ++ Method.argument c.namedFields f.name
              (Method.decoded request.style.mapDefaults true f) ++ [','])) ∈
                file.content.lines) := by
  obtain ⟨indent, usable, files⟩ := memberLines_mem accepted
  obtain ⟨_, members, read, -⟩ := Infer.classes_eq_ok_iff.mp accepted
  obtain rfl : indent = _ := Except.ok.inj (usable.symm.trans read.usable)
  have shape := preordered_of_accepted read accepted
  refine ⟨indent, members, read, ?_, shape.keys, ?_, ?_⟩
  · intro named object visits
    rw [shape.preorder, Infer.eraseDupsBy_sameText]
    exact Infer.exists_mem_dropRepeats (List.mem_map.mpr ⟨(named, object), visits, rfl⟩)
      List.not_mem_nil
  · intro c kept f listed
    obtain ⟨named, members, -, rfl, -⟩ := shape.keys c kept
    exact Infer.keyDenoted_of_mem_fields listed _
  · intro before g after returned c kept valid
    obtain ⟨file, member, lines⟩ := files before g after returned c kept valid
    refine ⟨file, member, fun f listed key => ?_⟩
    obtain ⟨named, members, -, rfl, -⟩ := shape.keys c kept
    have blank : (request.surroundings indent).indent.OneLine :=
      (Infer.isDeclared_indent usable).oneLine
    obtain ⟨toMap, fromMap⟩ := Infer.mem_lines_methods blank rfl listed key
    -- The comma at the end of an item is neither blank nor cut off.
    have solid : ∀ text : Text, Text.isBlankText (indent ++ (indent ++ text ++ [','])) = false := by
      intro text
      have comma : [','].all isBlank = false := by decide
      rw [Text.isBlankText, List.all_append, List.all_append, comma, Bool.and_false, Bool.and_false]
    have stays : ∀ text : Text, Text.trimEnd (indent ++ (indent ++ (indent ++ text ++ [',']))) ∈
        file.content.lines →
        indent ++ (indent ++ (indent ++ text ++ [','])) ∈ file.content.lines := by
      intro text inside
      have last := Text.trimEnd_concat (by decide : isBlank ',' = false)
          (indent ++ (indent ++ (indent ++ text)))
      simp only [List.append_assoc] at inside last ⊢
      rwa [last] at inside
    exact ⟨fun enabled => stays _ (lines .toMap (by decide) enabled _ toMap (solid _)),
      fun enabled => stays _ (lines .fromMap (by decide) enabled _ fromMap (solid _))⟩

/-- In `\x7b"a": 1, "it's": 2\x7d` the first key is read back from its entry and from its
    index, and the second is not. -/
theorem mapKeys_denoted_quote :
    let root : List (Text × Json) := [("a", .int 1), ("it's", .int 2)]
    let request : JsonRequest := { source := .value (.obj root), rootName := "Root" }
    let found := [Infer.classFor {} .calendar "  " "Root" root]
    let a : Field := { rawType := "int", key := "a", name := "a", line := 2 }
    let its : Field := { rawType := "int", key := "it's", name := "itS", line := 3 }
    request.inferred = .ok found ∧ found.flatMap (·.fields) = [a, its] ∧
      (∃ behind, StringLiteral.first? (Method.entry true a) =
        some (StringLiteral.unitsOf "a", behind)) ∧
      StringLiteral.first? (Method.entry true its) ≠
        some (StringLiteral.unitsOf "it's", ": ".toList ++ Codec.encode true its "itS") ∧
      (∃ behind, StringLiteral.first? (Method.decoded false true a) =
        some (StringLiteral.unitsOf "a", behind)) := by
  intro root request found a its
  have accepted : request.inferred = .ok found := by decide +kernel
  have fields : found.flatMap (·.fields) = [a, its] := by decide +kernel
  obtain ⟨indent, members, -, -, -, denoted, -⟩ := mapKeys_denoted accepted
  have listed : ∀ f ∈ [a, its], KeyDenoted false f := by
    rw [← fields]
    intro f member
    obtain ⟨c, kept, listed⟩ := List.mem_flatMap.mp member
    exact denoted c kept f listed
  have first := listed a (by decide)
  have second := listed its (by decide)
  refine ⟨accepted, fields, ⟨_, first.entry.mpr (by decide)⟩, ?_, ?_⟩
  · intro read
    exact absurd (second.entry.mp read) (by decide)
  · obtain ⟨front, back, -, -, read⟩ := first.index
    exact ⟨_, read.mpr (by decide)⟩

end JsonRequest

end ValueClass
