import ValueClass.Proofs.Infer.NestedCodec

/-! # Sets in encoded values

A set is held in a map as a list. Values that are gone through element by element become
lists at every level; where the values at the bottom stand for themselves, only the
outermost level is looked at, and a set further inside stays what it is.
-/

namespace ValueClass

/-! ## Occurrences -/

namespace Text

/-- How often a piece of text that is not empty stands in a text. -/
def occurrences (part : Text) : Text → Nat
  | [] => 0
  | c :: rest => (if part.isPrefixOf (c :: rest) then 1 else 0) + occurrences part rest

theorem le_occurrences_append (part a b : Text) :
    occurrences part a + occurrences part b ≤ occurrences part (a ++ b) := by
  induction a with
  | nil => simp [occurrences]
  | cons c rest ih =>
      have here : (if part.isPrefixOf (c :: rest) then 1 else 0) ≤
          if part.isPrefixOf (c :: rest ++ b) then 1 else 0 := by
        by_cases found : part.isPrefixOf (c :: rest)
        · have whole : part.isPrefixOf (c :: rest ++ b) := List.isPrefixOf_iff_prefix.mpr
            ((List.isPrefixOf_iff_prefix.mp found).trans (List.prefix_append _ _))
          exact Nat.le_of_eq ((if_pos found).trans (if_pos whole).symm)
        · exact Nat.le_trans (Nat.le_of_eq (if_neg found)) (Nat.zero_le _)
      rw [List.cons_append] at here ⊢
      simp only [occurrences]
      omega

theorem occurrences_append {part b : Text} (joint : ∀ c rest, b = c :: rest → c ∉ part.tail)
    (a : Text) :
    occurrences part (a ++ b) = occurrences part a + occurrences part b := by
  induction a with
  | nil => simp [occurrences]
  | cons c rest ih =>
      have here : part.isPrefixOf (c :: rest ++ b) = part.isPrefixOf (c :: rest) := by
        rw [Bool.eq_iff_iff, List.isPrefixOf_iff_prefix, List.isPrefixOf_iff_prefix]
        refine ⟨fun starts => ?_, fun starts => starts.trans (List.prefix_append _ _)⟩
        rcases List.prefix_or_prefix_of_prefix starts
          (List.prefix_append (c :: rest) b) with inside | ⟨across, rfl⟩
        · exact inside
        · cases across with
          | nil => exact (List.append_nil (c :: rest)).symm ▸ List.prefix_refl (c :: rest)
          | cons d more =>
              obtain ⟨behind, same⟩ := (List.prefix_append_right_inj _).mp starts
              exact absurd (by simp) (joint d (more ++ behind) same.symm)
      rw [List.cons_append] at here ⊢
      simp only [occurrences]
      rw [here, ih, Nat.add_assoc]

end Text

namespace Dart

namespace Codec

open TypeExpr

variable {type : TypeExpr} {value : Text}

/-- How often an expression makes a list of something. -/
def toListCalls (expression : Text) : Nat :=
  Text.occurrences ".toList()" expression

theorem le_toListCalls_append (a b : Text) : toListCalls a + toListCalls b ≤ toListCalls (a ++ b) :=
  Text.le_occurrences_append _ a b

theorem toListCalls_le_append (a b : Text) : toListCalls a ≤ toListCalls (a ++ b) :=
  Nat.le_trans (Nat.le_add_right _ _) (le_toListCalls_append a b)

theorem le_toListCalls_level {text : Text} {nullable : Bool} {element : TypeExpr}
    (collection : type = .list text nullable element ∨ type = .set text nullable element)
    (converted : element.isPrimitive = false) (fromJson : Bool) (value : Text) :
    toListCalls value + toListCalls (encodeType fromJson element "x") + 1 ≤ toListCalls
      (encodeType fromJson type value) := by
  rw [encodeType_each collection converted]
  generalize encodeType fromJson element "x" = encoded
  have front : toListCalls value ≤
      toListCalls (value ++ guard nullable ++ ".map((x) => ".toList) := by
    rw [List.append_assoc]
    exact toListCalls_le_append _ _
  have middle := le_toListCalls_append (value ++ guard nullable ++ ".map((x) => ".toList) encoded
  have back := le_toListCalls_append (value ++ guard nullable ++ ".map((x) => ".toList ++ encoded)
      ").toList()".toList
  have call : toListCalls ").toList()".toList = 1 := by decide
  omega

/-- Values that are gone through down to the bottom become lists at every level. -/
theorem le_toListCalls (converted : type.isPrimitive = false) (fromJson : Bool) (value : Text) :
    toListCalls value + type.levels.length ≤ toListCalls (encodeType fromJson type value) := by
  induction type generalizing value with
  | scalar text nullable =>
      have leaf : ∀ form,
          toListCalls value ≤ toListCalls (encodeLeaf fromJson nullable value form) := by
        intro form
        cases form with
        | same => exact Nat.le_refl _
        | date | color | icon | nested =>
            rw [encodeLeaf, List.append_assoc]
            exact toListCalls_le_append _ _
      exact leaf _
  | map text nullable => cases converted
  | list text nullable element ih =>
      have below : element.isPrimitive = false := converted
      have inner := ih below "x"
      have level : _ ≤ toListCalls (encodeType fromJson (.list text nullable element) value) :=
        le_toListCalls_level (.inl rfl) below fromJson value
      rw [levels, List.length_cons]
      omega
  | set text nullable element ih =>
      have below : element.isPrimitive = false := converted
      have inner := ih below "x"
      have level : _ ≤ toListCalls (encodeType fromJson (.set text nullable element) value) :=
        le_toListCalls_level (.inr rfl) below fromJson value
      rw [levels, List.length_cons]
      omega

theorem encodeType_of_isPrimitive (plain : type.isPrimitive) (fromJson : Bool) (value : Text) :
    encodeType fromJson type value =
      value ++ if type.levels.head? = some .set then guard type.isNullable ++ ".toList()".toList
        else [] := by
  cases type with
  | scalar text nullable =>
      have same : ∀ name ∈ primitiveNames, Leaf.ofText name = .same := by decide
      rw [encodeType, same text (List.contains_iff_mem.mp plain), levels]
      exact (List.append_nil value).symm
  | map text nullable => exact (List.append_nil value).symm
  | list text nullable element =>
      have below : element.isPrimitive := plain
      rw [encodeType, if_pos below]
      exact (List.append_nil value).symm
  | set text nullable element =>
      have below : element.isPrimitive := plain
      rw [encodeType, if_pos below, List.append_assoc]
      rfl

theorem toListCalls_of_isPrimitive (plain : type.isPrimitive) (fromJson : Bool) (value : Text) :
    toListCalls (encodeType fromJson type value) =
      toListCalls value + if type.levels.head? = some .set then 1 else 0 := by
  rw [encodeType_of_isPrimitive plain]
  split
  · have call : ∀ nullable, toListCalls (guard nullable ++ ".toList()".toList) = 1 := by decide
    have joint : ∀ nullable c rest, guard nullable ++ ".toList()".toList = c :: rest →
        c ∉ ".toList()".toList.tail := by
      intro nullable c rest same
      cases nullable <;> obtain rfl := (List.cons.inj same).1 <;> decide
    rw [toListCalls, Text.occurrences_append (joint _)]
    exact congrArg _ (call _)
  · rw [List.append_nil, Nat.add_zero]

/-- Every set in a nested type is made a list in its own right just when the values at the
    bottom have to be converted, or no set lies inside another list or set. -/
theorem encode_toList_iff {leaf : Text} {kinds : List Collection} {f : Field}
    (isLeaf : IsLeafText leaf) (nests : Nests leaf kinds f.rawType) (plain : f.isEnum = false)
    (fromJson : Bool) (value : Text) :
    toListCalls value + kinds.count .set ≤ toListCalls (encode fromJson f value) ↔
      leaf ∉ primitiveNames ∨ .set ∉ kinds.tail := by
  obtain ⟨levels, base, unmapped⟩ := nests.parse isLeaf
  have encoded : encode fromJson f value = encodeType fromJson (.parse f.rawType) value := by
    rw [encode, plain]
    rfl
  have primitive := isPrimitive_of_isUnmapped unmapped
  rw [encoded]
  rw [base] at primitive
  by_cases listed : leaf ∈ primitiveNames
  · rw [toListCalls_of_isPrimitive (primitive.trans (List.contains_iff_mem.mpr listed)), levels]
    cases kinds with
    | nil => simp
    | cons kind inner =>
        have count : Collection.set ∉ inner ↔ inner.count .set = 0 := List.count_eq_zero.symm
        simp only [List.count_cons, List.head?_cons, Option.some.injEq, List.tail_cons, beq_iff_eq,
          listed, not_true_eq_false, false_or, count]
        omega
  · have converted : (parse f.rawType).isPrimitive = false := by
      rw [primitive, Bool.eq_false_iff]
      exact fun contains => listed (List.contains_iff_mem.mp contains)
    have calls := le_toListCalls converted fromJson value
    have size := List.count_le_length (a := Collection.set) (l := kinds)
    rw [levels] at calls
    exact iff_of_true (by omega) (.inl listed)

/-- A list of sets of numbers is held as it is, with its sets; in a set of lists of sets of
    users every level becomes a list. -/
theorem encode_toList_iff_numbers :
    let numbers : Field := { rawType := "List<Set<int>>", key := "v", name := "v" }
    let users : Field := { rawType := "Set<List<Set< User? >>?>", key := "v", name := "v" }
    (IsLeafText "int" ∧ Nests "int" [.list, .set] numbers.rawType ∧
      encode false numbers "v" = "v".toList ∧
      ¬ toListCalls "v" + [Collection.list, .set].count .set ≤
        toListCalls (encode false numbers "v")) ∧
    (IsLeafText "User" ∧ Nests "User" [.set, .list, .set] users.rawType ∧
      toListCalls "v" + [Collection.set, .list, .set].count .set ≤
        toListCalls (encode false users "v")) := by
  intro numbers users
  have int : IsLeafText "int" :=
    ⟨by rintro c ⟨⟩; decide, by rintro c ⟨⟩; decide, fun kind => by cases kind <;> decide⟩
  have user : IsLeafText "User" :=
    ⟨by rintro c ⟨⟩; decide, by rintro c ⟨⟩; decide, fun kind => by cases kind <;> decide⟩
  have level : ∀ {leaf element : Text} {kinds : List Collection} (kind : Collection)
    (nullable : Bool), kind ≠ .map →
      Nests leaf kinds element →
        Nests leaf (kind :: kinds) (collectText kind ([] ++ element ++ []) ++ guard nullable) :=
    fun kind nullable inner nested => .level nullable inner rfl rfl nested
  have ofNumbers : Nests "int" [.list, .set] numbers.rawType :=
    level .list false (by decide) (level .set false (by decide) (.leaf false))
  have ofUsers : Nests "User" [.set, .list, .set] users.rawType :=
    level .set false (by decide) (level .list true (by decide)
      (@Nests.level _ .set _ [' '] _ [' '] false (by decide) rfl rfl (.leaf true)))
  refine ⟨⟨int, ofNumbers, by decide +kernel, ?_⟩, user, ofUsers, ?_⟩
  · exact fun calls => absurd ((encode_toList_iff int ofNumbers rfl false "v").mp calls) (by decide)
  · exact (encode_toList_iff user ofUsers rfl false "v").mpr (.inl (by decide))

end Codec

end Dart

end ValueClass
