import ValueClass.Dart.Line
import ValueClass.Proofs.Text.Pieces

/-! # The shape of a field

What a line of a class body has to look like to be read as a field, said of its text
alone: the tokens of the line come to a name with a type before it, and its code shows
nothing that only other members have.
-/

namespace ValueClass.Dart.Line

/-! ## The name in a declaration -/

/-- No name and its value stand together in a token. -/
def IsPlain (token : Text) : Prop :=
  '=' ∈ token → token.head? = some '='

/-- Tokens that declare a name: those of its type come first, and the name is the one
    that a value or a semicolon follows. What stands behind it does not matter. -/
inductive Declaration : List Text → List Text → Text → Prop
  | valued {c : Char} {name value : Text} {rest : List Text} (first : '=' ∉ c :: name) :
      Declaration ((c :: name ++ '=' :: value) :: rest) [] (c :: name)
  | ended {name : Text} {rest : List Text} (plain : IsPlain (name ++ [';'])) :
      Declaration ((name ++ [';']) :: rest) [] name
  | before {name value : Text} {rest : List Text} (plain : IsPlain name)
    (goesOn : name.getLast? ≠ some ';') :
      Declaration (name :: ('=' :: value) :: rest) [] name
  /-- A token of the type, before any of these. -/
  | type {token name : Text} {rest types : List Text} (plain : IsPlain token)
    (goesOn : token.getLast? ≠ some ';')
    (next : ∀ value more, rest ≠ ('=' :: value) :: more) (below : Declaration rest types name) :
      Declaration (token :: rest) (token :: types) name

theorem valued_or_isPlain (token : Text) :
    (∃ c name value, token = c :: name ++ '=' :: value ∧ '=' ∉ c :: name) ∨ IsPlain token := by
  by_cases holds : '=' ∈ token
  · obtain ⟨before, value, rfl, first⟩ := List.eq_append_cons_of_mem holds
    cases before with
    | nil => exact .inr fun _ => rfl
    | cons c name => exact .inl ⟨c, name, value, rfl, first⟩
  · exact .inr fun member => absurd member holds

theorem splitDeclaration_valued {c : Char} {name : Text} (first : '=' ∉ c :: name) (value : Text)
    (rest : List Text) :
    splitDeclaration ((c :: name ++ '=' :: value) :: rest) = some ([], c :: name) := by
  have cut : Text.cut? "=" (c :: name ++ '=' :: value) = some (c :: name, value) :=
    Text.cut?_append first value
  rw [splitDeclaration, cut]

theorem splitDeclaration_plain {token : Text} (plain : IsPlain token) (rest : List Text) :
    splitDeclaration (token :: rest) =
      if token.endsWith ";" then some ([], token.dropLast)
      else if (rest.head?.getD []).startsWith "=" then some ([], token)
      else (splitDeclaration rest).map fun (types, name) => (token :: types, name) := by
  have uncut : ∀ c name value, Text.cut? "=" token ≠ some (c :: name, value) := by
    intro c name value cut
    by_cases holds : '=' ∈ token
    · cases token with
      | nil => cases holds
      | cons d tail =>
          obtain rfl : d = '=' := Option.some.inj (plain holds)
          rw [show "=".toList = ['='] from rfl, Text.cut?, if_pos (by simp)] at cut
          cases cut
    · rw [show "=".toList = ['='] from rfl, Text.cut?_eq_none holds] at cut
      cases cut
  rw [splitDeclaration]
  split
  · rename_i c name value cut
    exact absurd cut (uncut c name value)
  · rfl

theorem endsWith_semicolon (token : Text) : token.endsWith ";" ↔ token.getLast? = some ';' := by
  rw [Text.endsWith, List.isSuffixOf_iff_suffix]
  constructor
  · rintro ⟨front, rfl⟩
    exact List.getLast?_concat
  · intro last
    obtain ⟨front, rfl⟩ := List.getLast?_eq_some_iff.mp last
    exact ⟨front, rfl⟩

theorem startsWith_equals (rest : List Text) :
    (rest.head?.getD []).startsWith "=" ↔ ∃ value more, rest = ('=' :: value) :: more := by
  rw [Text.startsWith, List.isPrefixOf_iff_prefix]
  cases rest with
  | nil => simp
  | cons token more =>
      constructor
      · rintro ⟨value, rfl⟩
        exact ⟨value, more, rfl⟩
      · rintro ⟨value, more', same⟩
        obtain ⟨rfl, -⟩ := List.cons.inj same
        exact ⟨value, rfl⟩

/-- The tokens of a line are taken apart just as they declare a name. -/
theorem splitDeclaration_eq_some_iff {tokens types : List Text} {name : Text} :
    splitDeclaration tokens = some (types, name) ↔ Declaration tokens types name := by
  constructor
  · intro split
    induction tokens generalizing types with
    | nil => cases split
    | cons token rest ih =>
        rcases valued_or_isPlain token with ⟨c, own, value, rfl, first⟩ | plain
        · rw [splitDeclaration_valued first] at split
          cases split
          exact .valued first
        · rw [splitDeclaration_plain plain] at split
          split at split
          · rename_i ends
            obtain ⟨front, rfl⟩ := List.getLast?_eq_some_iff.mp ((endsWith_semicolon token).mp ends)
            rw [List.dropLast_concat] at split
            cases split
            exact .ended plain
          · rename_i open_
            have goesOn : token.getLast? ≠ some ';' :=
              fun last => open_ ((endsWith_semicolon token).mpr last)
            split at split
            · rename_i equals
              obtain ⟨value, more, rfl⟩ := (startsWith_equals rest).mp equals
              cases split
              exact .before plain goesOn
            · rename_i other
              obtain ⟨⟨types, name⟩, below, same⟩ := Option.map_eq_some_iff.mp split
              cases same
              exact .type plain goesOn
                (fun value more same => other ((startsWith_equals rest).mpr ⟨value, more, same⟩))
                (ih below)
  · intro declares
    induction declares with
    | valued first => exact splitDeclaration_valued first _ _
    | @ended name rest plain =>
        rw [splitDeclaration_plain plain, if_pos ((endsWith_semicolon _).mpr List.getLast?_concat),
          List.dropLast_concat]
    | @before name value rest plain goesOn =>
        rw [splitDeclaration_plain plain, if_neg (mt (endsWith_semicolon _).mp goesOn),
          if_pos ((startsWith_equals _).mpr ⟨value, rest, rfl⟩)]
    | @type token name rest types plain goesOn next below ih =>
        have other : ¬ ∃ value more, rest = ('=' :: value) :: more :=
          fun ⟨value, more, same⟩ => next value more same
        rw [splitDeclaration_plain plain, if_neg (mt (endsWith_semicolon _).mp goesOn),
          if_neg (mt (startsWith_equals _).mp other), ih]
        rfl

/-! ## The line -/

/-- The tokens of a line, without its comment and without `final`, `const` and `late`. -/
def declared (line : Text) : List Text :=
  (Text.tokens (withoutComment line).trim).filter fun token => !fieldMarkers.contains token

/-- A line of the class `className` shows the declaration of a field. -/
structure ShowsField (line className : Text) : Prop where
  /-- There is code, and no comment. -/
  filled : code line ≠ []
  uncommented : ∀ mark ∈ (["//", "/*", "*"] : List Text), ¬ mark <+: code line
  /-- It does not start as a constructor does. -/
  unnamed : ¬ className <+: code line
  /-- It has no body and no annotation. -/
  unmarked : ∀ mark ∈ (["\x7b", "\x7d", "=>", "@"] : List Text), ¬ mark <:+: code line
  /-- None of its words belongs to another kind of member or to a statement. -/
  words : ∀ word ∈ (code line).words,
    word ∉ (["static", "get", "set", "return", "factory"] : List Text)
  /-- It has no value when it is final. -/
  stored : "final".toList ∈ (code line).words → '=' ∉ code line
  /-- It does not end as a method without a body does. -/
  open_ : ¬ ");".toList <:+ code line
  /-- Its tokens come to a name with a type. -/
  declares : ∃ types name, Declaration (declared line) types name ∧ types ≠ [] ∧ name ≠ []

theorem field?_isSome_iff (line : Text) (lineNo : Nat) (previous : Text) :
    (field? line lineNo previous).isSome ↔
      ∃ types name, Declaration (declared line) types name ∧ types ≠ [] ∧ name ≠ [] := by
  simp only [← splitDeclaration_eq_some_iff, declared]
  rw [field?]
  split
  · rename_i type types c name split
    exact ⟨fun _ => ⟨type :: types, c :: name, split, by simp, by simp⟩, fun _ => rfl⟩
  · rename_i other
    refine ⟨fun found => (by cases found), ?_⟩
    rintro ⟨types, name, split, typed, named⟩
    obtain ⟨type, types, rfl⟩ := List.exists_cons_of_ne_nil typed
    obtain ⟨c, name, rfl⟩ := List.exists_cons_of_ne_nil named
    exact absurd split (other type types c name)

/-- A line looks like a field and is read as one just when it shows a field. -/
theorem showsField_iff (line className : Text) (lineNo : Nat) (previous : Text) :
    isField line className ∧ (field? line lineNo previous).isSome ↔ ShowsField line className := by
  have look : isField line className ↔ code line ≠ [] ∧ ¬ className <+: code line ∧
      (∀ mark ∈ (["//", "/*", "*"] : List Text), ¬ mark <+: code line) ∧
      (∀ mark ∈ (["\x7b", "\x7d", "=>", "@"] : List Text), ¬ mark <:+: code line) ∧
      (∀ word ∈ (code line).words, word ∉
        (["static", "get", "set", "return", "factory"] : List Text)) ∧
      ("final".toList ∈ (code line).words → '=' ∉ code line) ∧ ¬ ");".toList <:+ code line := by
    simp only [isField, Text.startsWith, Text.endsWith, isComment, excludedMarks, excludedWords,
      Bool.and_eq_true, Bool.not_eq_true', ← Bool.not_eq_true, List.isEmpty_iff,
      List.isPrefixOf_iff_prefix, List.isSuffixOf_iff_suffix, Bool.or_eq_true, List.any_eq_true,
      Text.has_iff_infix, List.contains_iff_mem]
    constructor
    · rintro ⟨⟨⟨⟨⟨⟨filled, unnamed⟩, uncommented⟩, unmarked⟩, words⟩, stored⟩, open_⟩
      refine ⟨filled, unnamed, ?_, fun mark member there => unmarked ⟨mark, member, there⟩,
        fun word member there => words ⟨word, member, there⟩,
          fun final value => stored ⟨final, value⟩, open_⟩
      simpa only [not_or, List.forall_mem_cons, List.not_mem_nil, false_implies, implies_true,
        and_true, and_assoc]
        using uncommented
    · rintro ⟨filled, unnamed, uncommented, unmarked, words, stored, open_⟩
      refine ⟨⟨⟨⟨⟨⟨filled, unnamed⟩, ?_⟩, fun ⟨mark, member, there⟩ => unmarked mark member there⟩,
        fun ⟨word, member, there⟩ => words word member there⟩,
          fun ⟨final, value⟩ => stored final value⟩, open_⟩
      simpa only [not_or, List.forall_mem_cons, List.not_mem_nil, false_implies, implies_true,
        and_true, and_assoc]
        using uncommented
  rw [look, field?_isSome_iff]
  constructor
  · rintro ⟨⟨filled, unnamed, uncommented, unmarked, words, stored, open_⟩, declares⟩
    exact ⟨filled, uncommented, unnamed, unmarked, words, stored, open_, declares⟩
  · intro shows
    exact ⟨⟨shows.filled, shows.unnamed, shows.uncommented, shows.unmarked, shows.words,
      shows.stored, shows.open_⟩,
      shows.declares⟩

variable {line className : Text}

theorem not_showsField (other : isField line className = false) : ¬ ShowsField line className := by
  intro shows
  rw [((showsField_iff line className 0 []).mpr shows).1] at other
  cases other

theorem not_showsField_of_field? (none : ∀ lineNo previous, field? line lineNo previous = none) :
    ¬ ShowsField line className := by
  intro shows
  have found := ((showsField_iff line className 0 []).mpr shows).2
  rw [none] at found
  cases found

theorem field?_eq_none_of_not_showsField (other : ¬ ShowsField line className)
    (look : isField line className) {lineNo : Nat} {previous : Text} :
    field? line lineNo previous = none := by
  rw [← showsField_iff line className lineNo previous] at other
  simpa [look] using other

instance (line className : Text) : Decidable (ShowsField line className) :=
  decidable_of_iff _ (showsField_iff line className 0 [])

end ValueClass.Dart.Line
