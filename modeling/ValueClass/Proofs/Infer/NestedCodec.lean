import ValueClass.Proofs.Dart.TypeText
import ValueClass.Proofs.Infer.Visited

/-! # Codecs of nested objects

A field for a nested object has the class of the object as its type, below a list for
every array on the way. The codec is chosen again from the text of that type: it goes
through the codec of the class unless the class has been given the name of a type that is
held in maps in a form of its own.
-/

namespace ValueClass

namespace Dart

namespace TypeExpr

/-- Whether the values at the bottom of a type are converted by the codec of their class. -/
def IsNested : TypeExpr → Prop
  | .scalar text _ => Leaf.ofText text = .nested
  | .map _ _ => False
  | .list _ _ element | .set _ _ element => element.IsNested

theorem IsNested.isPrimitive {type : TypeExpr} (nested : type.IsNested) :
    type.isPrimitive = false := by
  induction type with
  | scalar text nullable =>
      rw [TypeExpr.isPrimitive, Bool.eq_false_iff]
      intro primitive
      rw [IsNested, Leaf.ofText, if_pos primitive] at nested
      split at nested
      · simp at nested
      · split at nested
        · simp at nested
        · split at nested <;> simp at nested
  | map text nullable => exact nested.elim
  | list text nullable element ih | set text nullable element ih => exact ih nested

/-! ## Lists of a class -/

def listsOf (levels : Nat) (text : Text) : Text :=
  (fun element : Text => "List<" ++ element ++ ">")^[levels] text

theorem listsOf_succ (levels : Nat) (text : Text) :
    listsOf (levels + 1) text = "List<".toList ++ listsOf levels text ++ ['>'] :=
  Function.iterate_succ_apply' ..

theorem solid_listsOf {name : Text} (solid : ∀ c ∈ name, isBlank c = false) (levels : Nat) :
    ∀ c ∈ listsOf levels name, isBlank c = false := by
  induction levels with
  | zero => exact solid
  | succ levels ih =>
      have opening : ∀ c ∈ "List<".toList, isBlank c = false := by decide
      intro c member
      rw [listsOf_succ, List.mem_append, List.mem_append, List.mem_singleton] at member
      rcases member with (member | member) | rfl
      · exact opening c member
      · exact ih c member
      · decide

theorem parse_list {element : Text} (solid : ∀ c ∈ element, isBlank c = false) :
    parse ("List<".toList ++ element ++ ['>']) =
      .list ("List<".toList ++ element ++ ['>']) false (parse element) := by
  have read := @parse_collectText .list (by decide) [] element [] false rfl rfl
    (fun c rest same => solid c (by simp [same])) (fun c rest same => solid c (by simp [same]))
  rw [List.nil_append, List.append_nil, show Codec.guard false = [] from rfl,
    List.append_nil] at read
  exact read

/-- A name stands for a bare collection or for itself. -/
theorem parse_name {name : Text} (plain : name.IsPlain) :
    parse name =
      if name = Collection.list.name then .list name false (.scalar "dynamic" false)
      else if name = Collection.set.name then .set name false (.scalar "dynamic" false)
      else if name = Collection.map.name then .map name false
      else .scalar name false := by
  have noAngle : ∀ kind : Collection, kind.spells name = (name == kind.name) := by
    intro kind
    have front : name.startsWith (kind.name ++ "<") = false := by
      rw [Text.startsWith, Bool.eq_false_iff]
      intro front
      obtain ⟨rest, rfl⟩ := List.isPrefixOf_iff_prefix.mp front
      exact plain.notMem (c := '<') (by decide) (by simp)
    rw [Collection.spells, front, Bool.or_false]
  have last : name.getLast? ≠ some '?' := fun last =>
    plain.notMem (by decide) (List.mem_of_getLast? last)
  obtain ⟨noMark, bare⟩ := bare_eq_self last
  rw [parse, noMark, bare, noAngle, noAngle, noAngle]
  simp only [beq_iff_eq]
  by_cases none : name = []
  · subst none
    rfl
  · rw [dif_neg none]
    split_ifs <;> rfl

/-- The names of the types that are held in maps in a form of their own. -/
def ownForms : List Text :=
  Collection.list.name :: Collection.set.name :: Collection.map.name ::
    "DateTime" :: "Color" :: "IconData" :: primitiveNames

theorem ofText_eq_nested_iff {text : Text} :
    Leaf.ofText text = .nested ↔
      text ∉ ("DateTime" : Text) :: "Color" :: "IconData" :: primitiveNames := by
  rw [Leaf.ofText, List.mem_cons, List.mem_cons, List.mem_cons, not_or, not_or, not_or]
  split_ifs with date color icon primitive
  · exact iff_of_false (by decide) fun other => other.1 date
  · exact iff_of_false (by decide) fun other => other.2.1 color
  · exact iff_of_false (by decide) fun other => other.2.2.1 icon
  · exact iff_of_false (by decide) fun other => other.2.2.2 (List.contains_iff_mem.mp primitive)
  · exact iff_of_true rfl ⟨date, color, icon, fun listed =>
      primitive (List.contains_iff_mem.mpr listed)⟩

theorem isNested_parse_name_iff {name : Text} (plain : name.IsPlain) :
    (parse name).IsNested ↔ name ∉ ownForms := by
  have dynamic : ¬ Leaf.ofText "dynamic" = .nested := by decide
  rw [parse_name plain, ownForms, List.mem_cons, List.mem_cons, List.mem_cons, not_or, not_or,
    not_or]
  split_ifs with list set map
  · exact iff_of_false dynamic fun other => other.1 list
  · exact iff_of_false dynamic fun other => other.2.1 set
  · exact iff_of_false not_false fun other => other.2.2.1 map
  · rw [IsNested, ofText_eq_nested_iff]
    exact ⟨fun other => ⟨list, set, map, other⟩, fun other => other.2.2.2⟩

theorem isNested_listsOf_iff {name : Text} (plain : name.IsPlain) (levels : Nat) :
    (parse (listsOf levels name)).IsNested ↔ name ∉ ownForms := by
  induction levels with
  | zero => exact isNested_parse_name_iff plain
  | succ levels ih =>
      rw [listsOf_succ, parse_list (solid_listsOf plain.solid levels)]
      exact ih

theorem baseText_listsOf {name : Text} (plain : name.IsPlain) (other : name ∉ ownForms)
    (levels : Nat) :
    (parse (listsOf levels name)).baseText = name := by
  induction levels with
  | zero =>
      simp only [ownForms, List.mem_cons, not_or] at other
      show (parse name).baseText = name
      rw [parse_name plain, if_neg other.1, if_neg other.2.1, if_neg other.2.2.1, baseText]
  | succ levels ih => rw [listsOf_succ, parse_list (solid_listsOf plain.solid levels), baseText, ih]

end TypeExpr

namespace Codec

open TypeExpr

/-- The call that turns the value at the bottom of a type into a map; under a list or a set it
    is made for the variable of the innermost function. -/
def toMapCall : TypeExpr → Text → Text
  | .scalar _ nullable, value | .map _ nullable, value => value ++ guard nullable ++ ".toMap()"
  | .list _ _ element, _ | .set _ _ element, _ => toMapCall element "x"

variable {type element : TypeExpr} {nullable fromJson : Bool} {text value : Text}

theorem encodeType_each
    (collection : type = .list text nullable element ∨ type = .set text nullable element)
    (nested : element.isPrimitive = false) :
    encodeType fromJson type value = value ++ guard nullable ++ ".map((x) => ".toList ++
      encodeType fromJson element "x" ++ ").toList()".toList := by
  rcases collection with rfl | rfl <;> exact if_neg (by simp [nested])

theorem decodeType_each
    (collection : type = .list text nullable element ∨ type = .set text nullable element)
    (nested : element.isPrimitive = false) :
    decodeType fromJson type value = text ++ ".from(".toList ++ value ++ ".map((x) => ".toList ++
      decodeType fromJson element "x" ++ "))".toList := by
  rcases collection with rfl | rfl <;> exact if_neg (by simp [nested])

theorem toMapCall_infix (nested : type.IsNested) (fromJson : Bool) (value : Text) :
    toMapCall type value <:+: encodeType fromJson type value := by
  induction type generalizing value with
  | scalar text nullable =>
      have leaf : Leaf.ofText text = .nested := nested
      rw [encodeType, leaf]
      exact List.infix_refl _
  | map text nullable => exact nested.elim
  | list text nullable element ih =>
      have inner : element.IsNested := nested
      rw [encodeType_each (.inl rfl) inner.isPrimitive]
      exact (ih inner "x").trans (List.infix_append _ _ _)
  | set text nullable element ih =>
      have inner : element.IsNested := nested
      rw [encodeType_each (.inr rfl) inner.isPrimitive]
      exact (ih inner "x").trans (List.infix_append _ _ _)

theorem fromMap_infix (nested : type.IsNested) (fromJson : Bool) (value : Text) :
    type.baseText ++ ".fromMap(".toList <:+: decodeType fromJson type value := by
  induction type generalizing value with
  | scalar text nullable =>
      have leaf : Leaf.ofText text = .nested := nested
      rw [decodeType, leaf]
      show text ++ ".fromMap(".toList <:+: text ++ ".fromMap(".toList ++ value ++ ")".toList
      rw [List.append_assoc]
      exact List.infix_append' [] _ _
  | map text nullable => exact nested.elim
  | list text nullable element ih =>
      have inner : element.IsNested := nested
      rw [decodeType_each (.inl rfl) inner.isPrimitive]
      exact (ih inner "x").trans (List.infix_append _ _ _)
  | set text nullable element ih =>
      have inner : element.IsNested := nested
      rw [decodeType_each (.inr rfl) inner.isPrimitive]
      exact (ih inner "x").trans (List.infix_append _ _ _)

/-- A capital that stands in `toMap` follows the value only where a class has its own codec. -/
theorem exists_encodeType_eq (own : ¬ type.IsNested) (fromJson : Bool) :
    ∃ tail : Text, 'M' ∉ tail ∧ ∀ value, encodeType fromJson type value = value ++ tail := by
  have guarded : ∀ (nullable : Bool) {form : Text}, 'M' ∉ form → 'M' ∉ guard nullable ++ form := by
    intro nullable form clean
    have mark : 'M' ∉ guard nullable := by cases nullable <;> decide
    simp [mark, clean]
  have same : ∀ {e : Text → Text}, (∀ value, e value = value) →
      ∃ tail : Text, 'M' ∉ tail ∧ ∀ value, e value = value ++ tail :=
    fun h => ⟨[], by simp, fun value => by rw [h, List.append_nil]⟩
  induction type with
  | scalar text nullable =>
      have leaf : Leaf.ofText text ≠ .nested := own
      simp only [encodeType]
      cases form : Leaf.ofText text with
      | date =>
          refine ⟨_, guarded nullable ?_, fun value => List.append_assoc _ _ _⟩
          cases fromJson <;> decide
      | color => exact ⟨_, guarded nullable (by decide), fun value => List.append_assoc _ _ _⟩
      | icon => exact ⟨_, guarded nullable (by decide), fun value => List.append_assoc _ _ _⟩
      | same => exact same fun value => rfl
      | nested => exact absurd form leaf
  | map text nullable => exact same fun value => rfl
  | list text nullable element ih =>
      cases primitive : element.isPrimitive with
      | true => exact same fun value => if_pos primitive
      | false =>
          obtain ⟨tail, clean, inner⟩ := ih own
          refine ⟨guard nullable ++
            (".map((x) => ".toList ++ ("x".toList ++ tail) ++ ").toList()".toList),
            guarded nullable (by simp [clean]), fun value => ?_⟩
          rw [encodeType_each (.inl rfl) primitive, inner]
          simp only [List.append_assoc]
  | set text nullable element ih =>
      cases primitive : element.isPrimitive with
      | true =>
          exact ⟨_, guarded nullable (by decide), fun value =>
            (if_pos primitive).trans (List.append_assoc _ _ _)⟩
      | false =>
          obtain ⟨tail, clean, inner⟩ := ih own
          refine ⟨guard nullable ++
            (".map((x) => ".toList ++ ("x".toList ++ tail) ++ ").toList()".toList),
            guarded nullable (by simp [clean]), fun value => ?_⟩
          rw [encodeType_each (.inr rfl) primitive, inner]
          simp only [List.append_assoc]

theorem not_toMap_infix (own : ¬ type.IsNested) (fromJson : Bool) (noDot : '.' ∉ value)
    (front : Text) :
    ¬ front ++ ".toMap()".toList <:+: encodeType fromJson type value := by
  obtain ⟨tail, clean, encoded⟩ := exists_encodeType_eq own fromJson
  rw [encoded]
  rintro ⟨before, after, same⟩
  have capital : ∀ rest : Text, 'M' ∈ ".toMap()".toList ++ rest :=
    fun rest => List.mem_append_left _ (by decide)
  have same : (before ++ front) ++ (".toMap()".toList ++ after) = value ++ tail := by
    simpa only [List.append_assoc] using same
  rcases List.append_eq_append_iff.mp same with ⟨between, grown, rest⟩ | ⟨between, grown, rest⟩
  · cases between with
    | nil =>
        rw [List.nil_append] at rest
        exact clean (by rw [← rest]; exact capital after)
    | cons c more =>
        obtain rfl : '.' = c := (List.cons.inj rest).1
        exact noDot (by simp [grown])
  · exact clean (by rw [rest]; exact List.mem_append_right _ (capital after))

theorem toMapCall_listsOf {name : Text} (plain : name.IsPlain) (other : name ∉ ownForms)
    (levels : Nat) (value : Text) :
    toMapCall (parse (listsOf levels name)) value =
      (if levels = 0 then value else "x") ++ ".toMap()".toList := by
  induction levels generalizing value with
  | zero =>
      simp only [ownForms, List.mem_cons, not_or] at other
      show toMapCall (parse name) value = value ++ ".toMap()".toList
      rw [parse_name plain, if_neg other.1, if_neg other.2.1, if_neg other.2.2.1, toMapCall, guard,
        if_neg (by decide), List.append_nil]
  | succ levels ih =>
      rw [listsOf_succ, parse_list (solid_listsOf plain.solid levels), toMapCall, ih, ite_self,
        if_neg (Nat.succ_ne_zero levels)]

end Codec

end Dart

open Dart

theorem TypeSketch.spelled_lists (levels : Nat) (named : Text) :
    (TypeSketch.list^[levels] (.object named)).spelled = TypeExpr.listsOf levels
    (Name.className named) := by
  induction levels with
  | zero => rfl
  | succ levels ih =>
      rw [Function.iterate_succ_apply', TypeExpr.listsOf_succ, ← ih]
      rfl

namespace Infer

/-- A field is converted by the codec of a class: the value under so many lists is asked for
    a map, and the constructor that reads maps is called, whatever the map value is. -/
def ConvertsBy (f : Field) (levels : Nat) (className : Text) (fromJson : Bool) : Prop :=
  (if levels = 0 then f.name else "x") ++ ".toMap()".toList <:+: Codec.encode fromJson f f.name ∧
    ∀ value, className ++ ".fromMap(".toList <:+: Codec.decode fromJson f value

/-- A field for a nested object is converted by the codec of the class of the object, unless
    that class is called like a type with a form of its own. -/
theorem convertsBy_iff {f : Field} {levels : Nat} {className : Text} (plain : className.IsPlain)
    (named : f.name.IsPlain) (type : f.rawType = TypeExpr.listsOf levels className)
    (declared : f.isEnum = false) (fromJson : Bool) :
    ConvertsBy f levels className fromJson ↔ className ∉ TypeExpr.ownForms := by
  have noDot : '.' ∉ f.name := named.notMem (by decide)
  have encoded : Codec.encode fromJson f f.name =
      Codec.encodeType fromJson (TypeExpr.parse (TypeExpr.listsOf levels className)) f.name := by
    rw [Codec.encode, declared, Field.type, type]
    rfl
  have decoded : ∀ value, Codec.decode fromJson f value =
      Codec.decodeType fromJson (TypeExpr.parse (TypeExpr.listsOf levels className)) value := by
    intro value
    rw [Codec.decode, declared, Field.type, type]
    rfl
  rw [← TypeExpr.isNested_listsOf_iff plain levels]
  constructor
  · intro converted
    by_contra own
    exact Codec.not_toMap_infix own fromJson noDot _ (encoded ▸ converted.1)
  · intro nested
    have other := (TypeExpr.isNested_listsOf_iff plain levels).mp nested
    have call := Codec.toMapCall_infix nested fromJson f.name
    rw [Codec.toMapCall_listsOf plain other, ← encoded] at call
    refine ⟨call, fun value => ?_⟩
    have read := Codec.fromMap_infix nested fromJson value
    rwa [TypeExpr.baseText_listsOf plain other, ← decoded] at read

variable {style : Style} {test : DateTest} {engine : TemplateEngine}
  {source : JsonSource} {rootName : Text} {found : List ClassDecl}

/-- The inferred classes are those of the objects that are visited. A field whose value leads
    to an object is converted by the codec of the class that is inferred for that object, and
    whether it is depends on the name of the class alone: the codec is left out when it is the
    name of a type with a form of its own. -/
theorem nestedCodec_iff
    (accepted : ((classes style test engine source rootName).run freshNamer).1 = .ok found) :
    ∃ indent root, Accepted style source indent root ∧
      (∀ c ∈ found, ∃ named members, Json.Visits rootName (.obj root) named members ∧
        c = classFor style test indent named members) ∧
      ∀ named members, Json.Visits rootName (.obj root) named members →
        ∀ (i : Nat) (f : Field) (key : Text) (value : Json) (levels : Nat)
          (inner : List (Text × Json)),
          (classFor style test indent named members).fields[i]? = some f →
          members[i]? = some (key, value) → value.LeadsTo levels inner →
            f.key = key ∧ ∃ d ∈ found,
              d.content = (classFor style test indent (Name.singular^[levels] key) inner).content ∧
              d.name = Name.className (Name.singular^[levels] key) ∧
              ∀ fromJson, ConvertsBy f levels d.name fromJson ↔ d.name ∉ TypeExpr.ownForms := by
  obtain ⟨indent, root, read, each, all⟩ := visited_of_classes accepted
  refine ⟨indent, root, read, each, ?_⟩
  intro named members visits i f key value levels inner field member leads
  -- The field as inference makes it, with the type of so many lists of the class.
  have made : f = { rawType :=
    TypeExpr.listsOf levels (Name.className (Name.singular^[levels] key)), key,
                    name := Name.varName key, line := 2 + i } := by
    have type : (ObjectSketch.ofValue (dateRule style test) key value).1 =
        TypeSketch.list^[levels] (.object (Name.singular^[levels] key)) := by
      rw [ObjectSketch.ofValue_of_leadsTo leads]
    rw [classFor, fields_inferredClass, getElem?_inferredFields, ObjectSketch.ofObject,
      ObjectSketch.types_ofMembers, List.getElem?_map, member] at field
    simp only [Option.map_some, Option.some.injEq] at field
    rw [← field, type, TypeSketch.spelled_lists]
  have reached : Json.Visits rootName (.obj root) (Name.singular^[levels] key) inner :=
    visits.member (List.mem_of_getElem? member) leads
  obtain ⟨d, inside, content, name⟩ := all _ inner reached
  refine ⟨by rw [made], d, inside, content, name, fun fromJson => ?_⟩
  rw [name]
  exact convertsBy_iff (Name.isPlain_className _) (by rw [made]; exact Name.isPlain_varName key)
    (by rw [made]) (by rw [made]) fromJson

/-- In `\x7b"color": \x7b"r": 1\x7d, "users": [\x7b"id": 1\x7d]\x7d` the users are converted
    by their codec, and the color, whose class is called like a type of the framework, is not. -/
theorem nestedCodec_iff_color :
    let color : Json := .obj [("r", .int 1)]
    let users : Json := .arr [.obj [("id", .int 1)]]
    let root : List (Text × Json) := [("color", color), ("users", users)]
    let found := [classFor {} .calendar "  " "Root" root,
      classFor {} .calendar "  " "color" [("r", .int 1)],
      classFor {} .calendar "  " "user" [("id", .int 1)]]
    let first : Field := { rawType := "Color", key := "color", name := "color", line := 2 }
    let second : Field := { rawType := "List<User>", key := "users", name := "users", line := 3 }
    ((classes {} .calendar .plain (.value (.obj root)) "Root").run freshNamer).1 = .ok found ∧
      (∃ d ∈ found, d.name = "Color" ∧ ¬ ConvertsBy first 0 d.name true) ∧
      ∃ d ∈ found, d.name = "User" ∧ ConvertsBy second 1 d.name true := by
  intro _ _ root found first second
  obtain ⟨accepted, read, color, user⟩ :
      ((classes {} .calendar .plain (.value (.obj root)) "Root").run freshNamer).1 = .ok found ∧
      (classFor {} .calendar "  " "Root" root).fields = [first, second] ∧
      Name.className "color" = "Color" ∧ Name.className (Name.singular "users") = "User" := by
    decide +kernel
  obtain ⟨indent, value, ⟨same, spaces⟩, -, each⟩ := nestedCodec_iff accepted
  obtain rfl : root = value := Except.ok.inj same
  obtain rfl : "  ".toList = indent := Except.ok.inj spaces
  have fields := each "Root" root (.here .object)
  refine ⟨accepted, ?_, ?_⟩
  · obtain ⟨-, d, inside, -, name, converts⟩ :=
      fields 0 first "color" _ 0 _ (by rw [read]; rfl) rfl .object
    have named : d.name = "Color".toList := name.trans color
    refine ⟨d, inside, named, fun converted => ?_⟩
    exact (converts true).mp converted (by rw [named]; decide)
  · obtain ⟨-, d, inside, -, name, converts⟩ :=
      fields 1 second "users" _ 1 _ (by rw [read]; rfl) rfl (.first .object)
    have named : d.name = "User".toList := name.trans user
    exact ⟨d, inside, named, (converts true).mpr (by rw [named]; decide)⟩

end Infer

end ValueClass
