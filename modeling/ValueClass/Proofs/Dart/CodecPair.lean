import ValueClass.Proofs.Infer.NestedCodec

/-! # The two directions of a codec

What is written to put a value into a map and what is written to read it back go down the
type together: they go through the elements of the same lists and sets, and where they
stop, each undoes the other.
-/

namespace ValueClass.Dart.Codec

open TypeExpr

/-- The two expressions for a type that is converted as a whole. -/
inductive WholePair (fromJson : Bool) : TypeExpr → Text → Text → Text → Prop
  /-- A map is held as it is. -/
  | map (text : Text) (nullable : Bool) (value : Text) :
      WholePair fromJson (.map text nullable) value value (text ++ ".from(" ++ value ++ ")")
  /-- So is a list whose elements need no conversion. -/
  | list (text : Text) (nullable : Bool) {element : TypeExpr} (value : Text)
    (plain : element.isPrimitive) :
      WholePair fromJson (.list text nullable element) value value
        (text ++ ".from(" ++ value ++ ")")
  /-- A set of such elements is held as a list. -/
  | set (text : Text) (nullable : Bool) {element : TypeExpr} (value : Text)
    (plain : element.isPrimitive) :
      WholePair fromJson (.set text nullable element) value (value ++ guard nullable ++ ".toList()")
        (text ++ ".from(" ++ value ++ ")")
  /-- A date is held as milliseconds. -/
  | date (nullable : Bool) (value : Text) (own : fromJson = false) :
      WholePair fromJson (.scalar "DateTime" nullable) value
        (value ++ guard nullable ++ ".millisecondsSinceEpoch")
        ("DateTime.fromMillisecondsSinceEpoch(" ++ value ++ ")")
  /-- A date from JSON is held as text. -/
  | jsonDate (nullable : Bool) (value : Text) (json : fromJson) :
      WholePair fromJson (.scalar "DateTime" nullable) value
        (value ++ guard nullable ++ ".toIso8601String()")
        ("DateTime.parse(" ++ value ++ ")")
  | color (nullable : Bool) (value : Text) :
      WholePair fromJson (.scalar "Color" nullable) value (value ++ guard nullable ++ ".value")
        ("Color(" ++ value ++ ")")
  | icon (nullable : Bool) (value : Text) :
      WholePair fromJson (.scalar "IconData" nullable) value
        (value ++ guard nullable ++ ".codePoint")
        ("IconData(" ++ value ++ ", fontFamily: 'MaterialIcons')")
  | jsonDouble (nullable : Bool) (value : Text) (json : fromJson) :
      WholePair fromJson (.scalar "double" nullable) value value (value ++ "?.toDouble()")
  | jsonInt (nullable : Bool) (value : Text) (json : fromJson) :
      WholePair fromJson (.scalar "int" nullable) value value (value ++ "?.toInt()")
  /-- The other values that stand for themselves. -/
  | same {text : Text} (nullable : Bool) (value : Text) (plain : text ∈ primitiveNames)
      (whole : fromJson → text ≠ "double" ∧ text ≠ "int") :
        WholePair fromJson (.scalar text nullable) value value value
  /-- All other types have a codec of their own. -/
  | nested {text : Text} (nullable : Bool) (value : Text)
      (other : text ∉ ("DateTime" : Text) :: "Color" :: "IconData" :: primitiveNames) :
      WholePair fromJson (.scalar text nullable) value (value ++ guard nullable ++ ".toMap()")
        (text ++ ".fromMap(" ++ value ++ ")")

/-- The encoder goes through the elements of a value. -/
def EncodesEach (type : TypeExpr) (value encoded : Text) : Prop :=
  value ++ guard type.isNullable ++ ".map((x) => ".toList <+: encoded

/-- The decoder goes through the elements of a map value. -/
def DecodesEach (type : TypeExpr) (value decoded : Text) : Prop :=
  type.text ++ ".from(".toList ++ value ++ ".map((x) => ".toList <+: decoded

/-- Two expressions go down a type together: both go through the elements, with a pair of
    expressions for the variable `x` that stands for an element, or neither does, and they are the
    pair for an enumeration or for a type that is converted as a whole. -/
inductive Paired (fromJson : Bool) : Bool → TypeExpr → Text → Text → Text → Prop
  | enumeration (type : TypeExpr) (value : Text)
      (apart : ¬ EncodesEach type value (value ++ guard type.isNullable ++ ".index") ∧
        ¬ DecodesEach type value (type.text ++ ".values[" ++ value ++ "]")) :
      Paired fromJson true type value (value ++ guard type.isNullable ++ ".index")
        (type.text ++ ".values[" ++ value ++ "]")
  | whole {type : TypeExpr} {value encoded decoded : Text}
    (pair : WholePair fromJson type value encoded decoded)
    (apart : ¬ EncodesEach type value encoded ∧ ¬ DecodesEach type value decoded) :
      Paired fromJson false type value encoded decoded
  | each {type element : TypeExpr} {text : Text} {nullable : Bool} {encoded decoded : Text}
    (value : Text)
    (collection : type = .list text nullable element ∨ type = .set text nullable element)
    (inner : Paired fromJson false element "x" encoded decoded) :
      Paired fromJson false type value
        (value ++ guard nullable ++ ".map((x) => " ++ encoded ++ ").toList()")
        (text ++ ".from(" ++ value ++ ".map((x) => " ++ decoded ++ "))")

variable {fromJson : Bool} {type : TypeExpr} {value : Text}

theorem not_prefix_of_apart {one other : Text} (apart : ¬ one <+: other ∧ ¬ other <+: one)
    (front a b : Text) :
    ¬ front ++ (one ++ a) <+: front ++ (other ++ b) := by
  rw [List.prefix_append_right_inj]
  intro starts
  rcases List.prefix_or_prefix_of_prefix ((List.prefix_append one a).trans starts)
    (List.prefix_append other b) with h | h
  · exact apart.1 h
  · exact apart.2 h

theorem not_encodesEach {nullable : Bool} {form : Text} (known : type.isNullable = nullable)
    (apart : ¬ guard nullable ++ ".map((x) => ".toList <+: guard nullable ++ form ∧
      ¬ guard nullable ++ form <+: guard nullable ++ ".map((x) => ".toList) :
    ¬ EncodesEach type value (value ++ guard nullable ++ form) := by
  have parts := not_prefix_of_apart apart value [] []
  rw [EncodesEach, known, List.append_assoc, List.append_assoc]
  simpa only [List.append_nil] using parts

theorem not_encodesEach_self : ¬ EncodesEach type value value := by
  intro starts
  have long := starts.length_le
  have some : (".map((x) => ".toList).length = 12 := rfl
  simp only [List.length_append] at long
  omega

theorem not_decodesEach {mark : Text} (rest : Text)
    (apart : ¬ type.text ++ ".from(".toList <+: mark ∧ ¬ mark <+: type.text ++ ".from(".toList) :
    ¬ DecodesEach type value (mark ++ rest) := by
  have parts := not_prefix_of_apart apart [] (value ++ ".map((x) => ".toList) rest
  simpa only [DecodesEach, List.append_assoc, List.nil_append] using parts

theorem not_decodesEach_copy {text : Text} (named : type.text = text) :
    ¬ DecodesEach type value (text ++ ".from(".toList ++ value ++ ")".toList) := by
  have differ : ¬ ".map((x) => ".toList <+: ")".toList ∧
      ¬ ")".toList <+: ".map((x) => ".toList := by decide
  have parts := not_prefix_of_apart differ (text ++ ".from(".toList ++ value) [] []
  simpa only [DecodesEach, named, List.append_nil] using parts

theorem not_decodesEach_short {tail : Text} (short : tail.length ≤ 12) :
    ¬ DecodesEach type value (value ++ tail) := by
  intro starts
  have long := starts.length_le
  have copy : (".from(".toList).length = 6 := rfl
  have each : (".map((x) => ".toList).length = 12 := rfl
  simp only [List.length_append] at long
  omega

theorem not_decodesEach_self : ¬ DecodesEach type value value := by
  have short : ¬ DecodesEach type value (value ++ []) := not_decodesEach_short (Nat.zero_le _)
  rwa [List.append_nil] at short

theorem WholePair.apart {encoded decoded : Text}
    (pair : WholePair fromJson type value encoded decoded) :
    ¬ EncodesEach type value encoded ∧ ¬ DecodesEach type value decoded := by
  cases pair with
  | map text nullable => exact ⟨not_encodesEach_self, not_decodesEach_copy rfl⟩
  | list text nullable _ plain => exact ⟨not_encodesEach_self, not_decodesEach_copy rfl⟩
  | set text nullable _ plain =>
      exact ⟨not_encodesEach rfl (by cases nullable <;> decide), not_decodesEach_copy rfl⟩
  | date nullable _ _ | jsonDate nullable _ _ =>
      refine ⟨not_encodesEach rfl (by cases nullable <;> decide), ?_⟩
      rw [List.append_assoc]
      exact not_decodesEach _ (by simp only [TypeExpr.text]; decide)
  | color nullable _ | icon nullable _ =>
      refine ⟨not_encodesEach rfl (by cases nullable <;> decide), ?_⟩
      rw [List.append_assoc]
      exact not_decodesEach _ (by simp only [TypeExpr.text]; decide)
  | jsonDouble nullable _ _ | jsonInt nullable _ _ =>
      exact ⟨not_encodesEach_self, not_decodesEach_short (by decide)⟩
  | same nullable _ plain whole => exact ⟨not_encodesEach_self, not_decodesEach_self⟩
  | @nested text nullable _ other =>
      refine ⟨not_encodesEach rfl (by cases nullable <;> decide), ?_⟩
      rw [List.append_assoc]
      refine not_decodesEach _ ?_
      simp only [TypeExpr.text, List.prefix_append_right_inj]
      decide

/-- A value that stands for itself is read back as it is, or as the number that JSON may have
    spelled otherwise. -/
theorem wholePair_same (fromJson : Bool) {text : Text} (nullable : Bool) (value : Text)
    (plain : text ∈ primitiveNames) :
    WholePair fromJson (.scalar text nullable) value value
      (decodeLeaf fromJson text value .same) := by
  by_cases whole : fromJson → text ≠ "double" ∧ text ≠ "int"
  · have read : decodeLeaf fromJson text value .same = value := by
      cases fromJson with
      | false => rfl
      | true =>
          obtain ⟨double, int⟩ := whole rfl
          exact (if_neg fun same => double (of_decide_eq_true same)).trans
            (if_neg fun same => int (of_decide_eq_true same))
    rw [read]
    exact .same nullable value plain whole
  · simp only [Classical.not_imp, not_and_or, not_not] at whole
    obtain ⟨rfl, rfl | rfl⟩ := whole
    · exact .jsonDouble nullable value rfl
    · exact .jsonInt nullable value rfl

/-- A type that is no collection is converted as a whole. -/
theorem wholePair_scalar (fromJson : Bool) (text : Text) (nullable : Bool) (value : Text) :
    WholePair fromJson (.scalar text nullable) value
      (encodeType fromJson (.scalar text nullable) value)
      (decodeType fromJson (.scalar text nullable) value) := by
  by_cases date : text = "DateTime"
  · subst date
    cases fromJson with
    | false => exact .date nullable value rfl
    | true => exact .jsonDate nullable value rfl
  · by_cases color : text = "Color"
    · subst color
      exact .color nullable value
    · by_cases icon : text = "IconData"
      · subst icon
        exact .icon nullable value
      · by_cases plain : text ∈ primitiveNames
        · have leaf : Leaf.ofText text = .same := by
            rw [Leaf.ofText, if_neg date, if_neg color, if_neg icon,
              if_pos (List.contains_iff_mem.mpr plain)]
          rw [encodeType, decodeType, leaf]
          exact wholePair_same fromJson nullable value plain
        · have other : text ∉ ("DateTime" : Text) :: "Color" :: "IconData" :: primitiveNames := by
            simp only [List.mem_cons, not_or]
            exact ⟨date, color, icon, plain⟩
          rw [encodeType, decodeType, ofText_eq_nested_iff.mpr other]
          exact .nested nullable value other

theorem paired_type (fromJson : Bool) (type : TypeExpr) (value : Text) :
    Paired fromJson false type value (encodeType fromJson type value)
      (decodeType fromJson type value) := by
  have whole : ∀ {type value encoded decoded}, WholePair fromJson type value encoded decoded →
      Paired fromJson false type value encoded decoded := fun pair => .whole pair pair.apart
  induction type generalizing value with
  | scalar text nullable => exact whole (wholePair_scalar fromJson text nullable value)
  | map text nullable => exact whole (.map text nullable value)
  | list text nullable element ih =>
      cases plain : element.isPrimitive with
      | true =>
          rw [encodeType, decodeType, if_pos plain, if_pos plain]
          exact whole (.list text nullable value plain)
      | false =>
          rw [encodeType_each (.inl rfl) plain, decodeType_each (.inl rfl) plain]
          exact .each value (.inl rfl) (ih "x")
  | set text nullable element ih =>
      cases plain : element.isPrimitive with
      | true =>
          rw [encodeType, decodeType, if_pos plain, if_pos plain]
          exact whole (.set text nullable value plain)
      | false =>
          rw [encodeType_each (.inr rfl) plain, decodeType_each (.inr rfl) plain]
          exact .each value (.inr rfl) (ih "x")

/-- The expressions that put a field into a map and read it back go down its type together, at
    every level. -/
theorem encode_decode_paired (fromJson : Bool) (f : Field) (value : Text) :
    Paired fromJson f.isEnum f.type value (encode fromJson f value) (decode fromJson f value) := by
  rw [encode, decode]
  cases f.isEnum with
  | false => exact paired_type fromJson f.type value
  | true =>
      refine .enumeration f.type value ⟨not_encodesEach rfl ?_, ?_⟩
      · cases f.type.isNullable <;> decide
      · rw [List.append_assoc]
        refine not_decodesEach _ ?_
        simp only [List.prefix_append_right_inj]
        decide

end ValueClass.Dart.Codec
