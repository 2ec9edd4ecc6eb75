import ValueClass.Dart.Codec
import ValueClass.Proofs.Text.Trim

/-! # The text of a type

A type that nests lists and sets is read from its text level by level, whatever marks of
nullability and blanks inside the brackets are written.
-/

namespace ValueClass.Dart

namespace TypeExpr

theorem bare_append_guard {text : Text} (last : text.getLast? ≠ some '?') (nullable : Bool) :
    (text ++ Codec.guard nullable).endsWith "?" = nullable ∧ bare
    (text ++ Codec.guard nullable) = text := by
  cases nullable with
  | true =>
      have mark : (text ++ ['?']).endsWith "?" = true :=
        List.isSuffixOf_iff_suffix.mpr (List.suffix_append text ['?'])
      exact ⟨mark, (if_pos mark).trans List.dropLast_concat⟩
  | false =>
      have noMark : (text ++ []).endsWith "?" = false := by
        rw [Text.endsWith, Bool.eq_false_iff, List.append_nil]
        intro mark
        obtain ⟨rest, rfl⟩ := List.isSuffixOf_iff_suffix.mp mark
        exact last List.getLast?_concat
      exact ⟨noMark, (if_neg fun mark => Bool.noConfusion (noMark.symm.trans mark)).trans
        (List.append_nil text)⟩

theorem bare_eq_self {raw : Text} (last : raw.getLast? ≠ some '?') :
    raw.endsWith "?" = false ∧ bare raw = raw := by
  simpa only [Codec.guard, Bool.false_eq_true, if_false,
    List.append_nil] using bare_append_guard last false

/-- A collection of some kind; what is not looked into is left out. -/
def collect (kind : Collection) (text : Text) (nullable : Bool) (element : TypeExpr) : TypeExpr :=
  match kind with
  | .list => .list text nullable element
  | .set => .set text nullable element
  | .map => .map text nullable

def collectText (kind : Collection) (inside : Text) : Text :=
  kind.name ++ '<' :: inside ++ ['>']

theorem spells_collectText (kind other : Collection) (inside : Text) :
    other.spells (collectText kind inside) = (kind == other) := by
  cases kind <;> cases other <;> rfl

/-- A list or set is taken apart to the type of its elements. -/
theorem parse_collectText {kind : Collection} (inner : kind ≠ .map) {before element after : Text}
    (nullable : Bool) (front : before.isBlankText) (back : after.isBlankText)
    (first : ∀ c rest, element = c :: rest → isBlank c = false)
    (final : ∀ c rest, element = rest ++ [c] → isBlank c = false) :
    parse (collectText kind (before ++ element ++ after) ++ Codec.guard nullable) =
      collect kind (collectText kind (before ++ element ++ after)) nullable (parse element) := by
  have last : (collectText kind (before ++ element ++ after)).getLast? ≠ some '?' := by
    rw [collectText, List.getLast?_concat]
    decide
  obtain ⟨mark, bare⟩ := bare_append_guard last nullable
  have notBare : ∀ other :
      Collection, (collectText kind (before ++ element ++ after) == other.name) = false := by
    intro other
    rw [beq_eq_false_iff_ne]
    intro same
    have angle : '<' ∉ other.name := by cases other <;> decide
    exact angle (by rw [← same]; simp [collectText])
  have some : collectText kind (before ++ element ++ after) ≠ [] := by simp [collectText]
  have argument : argument kind.name.length (collectText kind (before ++ element ++ after)) =
      element := by
    have inside : (collectText kind (before ++ element ++ after)).drop (kind.name.length + 1) =
        before ++ element ++ after ++ ['>'] := by
      rw [collectText, List.append_assoc, List.drop_length_add_append]
      rfl
    rw [TypeExpr.argument, inside, List.dropLast_concat]
    exact Text.trim_eq front back first final
  rw [parse, mark, bare, dif_neg some, if_neg (by rw [notBare]; decide),
    if_neg (by rw [notBare]; decide), spells_collectText, spells_collectText]
  cases kind with
  | list => exact (if_pos rfl).trans (congrArg (TypeExpr.list _ _ ∘ parse) argument)
  | set =>
      rw [if_neg (by decide)]
      exact (if_pos rfl).trans (congrArg (TypeExpr.set _ _ ∘ parse) argument)
  | map => exact absurd rfl inner

/-! ## Nested collections -/

/-- The lists and sets that a type nests, the outermost first. -/
def levels : TypeExpr → List Collection
  | .scalar _ _ => []
  | .map _ _ => []
  | .list _ _ element => .list :: element.levels
  | .set _ _ element => .set :: element.levels

/-- Whether what stands under all lists and sets of a type is no map. -/
def IsUnmapped : TypeExpr → Prop
  | .scalar _ _ => True
  | .map _ _ => False
  | .list _ _ element => element.IsUnmapped
  | .set _ _ element => element.IsUnmapped

/-- The text of a type that is no collection, without a mark of nullability. -/
structure IsLeafText (leaf : Text) : Prop where
  first : ∀ c ∈ leaf.head?, isBlank c = false
  last : ∀ c ∈ leaf.getLast?, isBlank c = false ∧ c ≠ '?'
  other : ∀ kind : Collection, kind.spells leaf = false

/-- A text that nests lists and sets over a type, the outermost first. Every level may admit
    null, and blanks may stand inside the brackets. -/
inductive Nests (leaf : Text) : List Collection → Text → Prop
  | leaf (nullable : Bool) : Nests leaf [] (leaf ++ Codec.guard nullable)
  | level {kind : Collection} {kinds : List Collection} {before element after : Text}
    (nullable : Bool)
    (inner : kind ≠ .map) (front : before.isBlankText) (back : after.isBlankText)
    (nested : Nests leaf kinds element) :
      Nests leaf (kind :: kinds)
        (collectText kind (before ++ element ++ after) ++ Codec.guard nullable)

theorem isBlank_last_guard {text : Text}
    (solid : ∀ c rest, text = rest ++ [c] → isBlank c = false) (nullable : Bool) :
    ∀ c rest, text ++ Codec.guard nullable = rest ++ [c] → isBlank c = false := by
  intro c rest same
  cases nullable with
  | true =>
      obtain ⟨-, mark⟩ := List.append_inj' same rfl
      obtain rfl : '?' = c := (List.cons.inj mark).1
      decide
  | false => exact solid c rest ((List.append_nil text).symm.trans same)

theorem isBlank_first_guard {text : Text} (solid : ∀ c rest, text = c :: rest → isBlank c = false)
    (nullable : Bool) :
    ∀ c rest, text ++ Codec.guard nullable = c :: rest → isBlank c = false := by
  intro c rest same
  cases text with
  | nil =>
      cases nullable with
      | true =>
          obtain rfl : '?' = c := (List.cons.inj same).1
          decide
      | false => cases same
  | cons head tail =>
      obtain rfl : head = c := (List.cons.inj same).1
      exact solid head tail rfl

variable {leaf raw : Text} {kinds : List Collection}

theorem Nests.solid (nests : Nests leaf kinds raw) (isLeaf : IsLeafText leaf) :
    (∀ c rest, raw = c :: rest → isBlank c = false) ∧ ∀ c rest, raw = rest ++
    [c] → isBlank c = false := by
  cases nests with
  | leaf nullable =>
      exact ⟨isBlank_first_guard (fun c rest same => isLeaf.first c (by simp [same])) nullable,
        isBlank_last_guard (fun c rest same => (isLeaf.last c (by simp [same])).1) nullable⟩
  | @level kind _ before element after nullable =>
      constructor
      · apply isBlank_first_guard
        intro c rest same
        cases kind <;> obtain rfl := (List.cons.inj same).1 <;> decide
      · apply isBlank_last_guard
        intro c rest same
        obtain ⟨-, close⟩ := List.append_inj' same rfl
        obtain rfl : '>' = c := (List.cons.inj close).1
        decide

theorem parse_leaf (isLeaf : IsLeafText leaf) (nullable : Bool) :
    parse (leaf ++ Codec.guard nullable) = .scalar leaf nullable := by
  have last : leaf.getLast? ≠ some '?' := fun mark => (isLeaf.last '?' mark).2 rfl
  obtain ⟨mark, bare⟩ := bare_append_guard last nullable
  have notBare : ∀ kind : Collection, (leaf == kind.name) = false := by
    intro kind
    have other := isLeaf.other kind
    rw [Collection.spells, Bool.or_eq_false_iff] at other
    exact other.1
  rw [parse, mark, bare, notBare, notBare, isLeaf.other, isLeaf.other, isLeaf.other]
  by_cases none : leaf = []
  · rw [dif_pos none, none]
  · rw [dif_neg none]
    rfl

theorem Nests.parse (nests : Nests leaf kinds raw) (isLeaf : IsLeafText leaf) :
    (parse raw).levels = kinds ∧ (parse raw).baseText = leaf ∧ (parse raw).IsUnmapped := by
  induction nests with
  | leaf nullable =>
      rw [parse_leaf isLeaf]
      exact ⟨rfl, rfl, trivial⟩
  | @level kind kinds before element after nullable inner front back nested ih =>
      obtain ⟨levels, base, unmapped⟩ := ih
      obtain ⟨first, last⟩ := nested.solid isLeaf
      rw [parse_collectText inner nullable front back first last]
      cases kind with
      | list | set => exact ⟨congrArg (List.cons _) levels, base, unmapped⟩
      | map => exact absurd rfl inner

theorem isPrimitive_of_isUnmapped {type : TypeExpr} (unmapped : type.IsUnmapped) :
    type.isPrimitive = primitiveNames.contains type.baseText := by
  induction type with
  | scalar text nullable => rfl
  | map text nullable => exact unmapped.elim
  | list text nullable element ih | set text nullable element ih => exact ih unmapped

end TypeExpr

end ValueClass.Dart
