import ValueClass.Member.Methods
import ValueClass.Proofs.Fresh.Names

/-! # What members are found by

The ink that a member is found by is a word, and then for all members but one a
mark that no name holds. So a line is taken for such a member only if it starts
with the very word and the mark behind it; the one that has no mark, the hash code,
is looked for by a word that a name can start with.
-/

namespace ValueClass.Dart

/-- The word that the ink of a member starts with. -/
def leadWord (name : Text) : MemberKind → Text
  | .constructor => []
  | .copyWith => name ++ "copyWith"
  | .toMap => "Map"
  | .fromMap => "factory" ++ name
  | .toJson => "StringtoJson"
  | .fromJson => "factory" ++ name
  | .toString => "StringtoString"
  | .equality => "booloperator"
  | .hashCode => "intgethashCode"
  | .props => "List"

/-- The mark behind the word, with what follows it. -/
def leadRest : MemberKind → Text
  | .constructor => []
  | .copyWith => "("
  | .toMap => "<String,dynamic>toMap()"
  | .fromMap => ".fromMap("
  | .toJson => "()"
  | .fromJson => ".fromJson("
  | .toString => "()"
  | .equality => "=="
  | .hashCode => []
  | .props => "<Object?>getprops"

/-- The marks that follow the word of a member. -/
def leadMarks : List Char := ['(', '<', '.', '=']

theorem ink_finder {c : ClassDecl} (name : Fresh.IsIdentifier c.name) (type : c.type = c.name)
    {kind : MemberKind} :
    (Method.finder c kind).ink = leadWord c.name kind ++ leadRest kind := by
  cases kind with
  | constructor => rfl
  | copyWith =>
      show Text.ink (c.type ++ " copyWith(".toList) = c.name ++ "copyWith".toList ++ "(".toList
      rw [Text.ink_append, type, name.ink, List.append_assoc]
      rfl
  | fromMap =>
      show Text.ink ("factory ".toList ++ c.name ++ ".fromMap(".toList) =
        "factory".toList ++ c.name ++ ".fromMap(".toList
      rw [Text.ink_append, Text.ink_append, name.ink]
      rfl
  | fromJson =>
      show Text.ink ("factory ".toList ++ c.name ++ ".fromJson(".toList) =
        "factory".toList ++ c.name ++ ".fromJson(".toList
      rw [Text.ink_append, Text.ink_append, name.ink]
      rfl
  | toMap | toJson | toString | equality | hashCode | props => rfl

theorem plain_leadWord {name : Text} (h : ∀ c ∈ name, Text.isPlain c) (kind : MemberKind) :
    ∀ c ∈ leadWord name kind, Text.isPlain c := by
  have around : ∀ {word : Text}, (∀ c ∈ word, Text.isPlain c) →
      ∀ c ∈ word ++ name, Text.isPlain c := by
    intro word letters c member
    rcases List.mem_append.mp member with member | member
    · exact letters c member
    · exact h c member
  cases kind with
  | copyWith =>
      intro c member
      rcases List.mem_append.mp member with member | member
      · exact h c member
      · have : ∀ c ∈ "copyWith".toList, Text.isPlain c := by decide
        exact this c member
  | fromMap | fromJson => exact around (by decide)
  | constructor => exact fun c member => absurd member List.not_mem_nil
  | toMap => exact (by decide : ∀ c ∈ "Map".toList, Text.isPlain c)
  | toJson => exact (by decide : ∀ c ∈ "StringtoJson".toList, Text.isPlain c)
  | toString => exact (by decide : ∀ c ∈ "StringtoString".toList, Text.isPlain c)
  | equality => exact (by decide : ∀ c ∈ "booloperator".toList, Text.isPlain c)
  | hashCode => exact (by decide : ∀ c ∈ "intgethashCode".toList, Text.isPlain c)
  | props => exact (by decide : ∀ c ∈ "List".toList, Text.isPlain c)

theorem leadRest_eq {kind : MemberKind} (method : kind ≠ .constructor) (other : kind ≠ .hashCode) :
    ∃ mark rest, leadRest kind = mark :: rest ∧ mark ∈ leadMarks ∧ Text.isPlain mark = false := by
  have marks : ∀ mark ∈ leadMarks, Text.isPlain mark = false := by decide
  have : ∃ mark rest, leadRest kind = mark :: rest ∧ mark ∈ leadMarks := by
    cases kind with
    | constructor => exact absurd rfl method
    | hashCode => exact absurd rfl other
    | copyWith => exact ⟨'(', [], by decide, by decide⟩
    | toMap => exact ⟨'<', "String,dynamic>toMap()", by decide, by decide⟩
    | fromMap => exact ⟨'.', "fromMap(", by decide, by decide⟩
    | toJson => exact ⟨'(', ")", by decide, by decide⟩
    | fromJson => exact ⟨'.', "fromJson(", by decide, by decide⟩
    | toString => exact ⟨'(', ")", by decide, by decide⟩
    | equality => exact ⟨'=', "=", by decide, by decide⟩
    | props => exact ⟨'<', "Object?>getprops", by decide, by decide⟩
  obtain ⟨mark, rest, same, listed⟩ := this
  exact ⟨mark, rest, same, listed, marks mark listed⟩

theorem prefix_word_iff {w v rest more : Text} {c d : Char} (letters : ∀ e ∈ w, Text.isPlain e)
    (others : ∀ e ∈ v, Text.isPlain e) (mark : Text.isPlain c = false)
    (stop : Text.isPlain d = false) :
    w ++ c :: rest <+: v ++ d :: more ↔ w = v ∧ c :: rest <+: d :: more := by
  constructor
  · rintro ⟨tail, same⟩
    have front : (v ++ d :: more).takeWhile Text.isPlain = v := by
      rw [List.takeWhile_append_of_pos others, List.takeWhile_cons_of_neg (by simp [stop]),
        List.append_nil]
    rw [← same, List.append_assoc, List.takeWhile_append_of_pos letters, List.cons_append,
      List.takeWhile_cons_of_neg (by simp [mark]), List.append_nil] at front
    subst front
    refine ⟨rfl, tail, ?_⟩
    rw [List.append_assoc] at same
    exact List.append_cancel_left same
  · rintro ⟨rfl, tail, same⟩
    refine ⟨tail, ?_⟩
    rw [List.append_assoc, same]

/-- Whether the ink of a line starts like a member of a class. -/
def Like (name : Text) (kind : MemberKind) (line : Text) : Prop :=
  leadWord name kind ++ leadRest kind <+: line.ink

instance (name : Text) (kind : MemberKind) (line : Text) : Decidable (Like name kind line) :=
  inferInstanceAs (Decidable (_ <+: _))

section Unlike

variable {name line w rest : Text} {kind : MemberKind} {c : Char}

theorem like_iff (plain : ∀ d ∈ name, Text.isPlain d) (method : kind ≠ .constructor)
    (other : kind ≠ .hashCode) (letters : ∀ d ∈ w, Text.isPlain d) (stop : Text.isPlain c = false)
    (ink : line.ink = w ++ c :: rest) :
    Like name kind line ↔ leadWord name kind = w ∧ leadRest kind <+: c :: rest := by
  obtain ⟨mark, more, same, -, markStop⟩ := leadRest_eq method other
  rw [Like, ink, same]
  exact prefix_word_iff (plain_leadWord plain kind) letters markStop stop

theorem unlike_of_mark (plain : ∀ d ∈ name, Text.isPlain d) (method : kind ≠ .constructor)
    (other : kind ≠ .hashCode) (letters : ∀ d ∈ w, Text.isPlain d) (stop : Text.isPlain c = false)
    (foreign : c ∉ leadMarks) (ink : line.ink = w ++ c :: rest) : ¬ Like name kind line := by
  rw [like_iff plain method other letters stop ink]
  rintro ⟨-, starts⟩
  obtain ⟨mark, more, same, listed, -⟩ := leadRest_eq method other
  rw [same, List.cons_prefix_cons] at starts
  exact foreign (starts.1 ▸ listed)

theorem head_leadWord (upper : ∃ c rest, name = c :: rest ∧ c.isUpper)
    (method : kind ≠ .constructor) :
    ∃ c rest, leadWord name kind = c :: rest ∧
      (c.isUpper ∨ ∃ d more, rest = d :: more ∧
        (c = 'f' ∧ d = 'a' ∨ c = 'b' ∧ d = 'o' ∨ c = 'i' ∧ d = 'n')) := by
  obtain ⟨c, rest, rfl, upper⟩ := upper
  cases kind with
  | constructor => exact absurd rfl method
  | copyWith => exact ⟨c, rest ++ "copyWith".toList, rfl, .inl upper⟩
  | toMap => exact ⟨'M', "ap".toList, rfl, .inl rfl⟩
  | toJson => exact ⟨'S', "tringtoJson".toList, rfl, .inl rfl⟩
  | toString => exact ⟨'S', "tringtoString".toList, rfl, .inl rfl⟩
  | props => exact ⟨'L', "ist".toList, rfl, .inl rfl⟩
  | fromMap | fromJson =>
      exact ⟨'f', "actory".toList ++ c :: rest, rfl,
        .inr ⟨'a', "ctory".toList ++ c :: rest, rfl, by simp⟩⟩
  | equality => exact ⟨'b', "ooloperator".toList, rfl,
      .inr ⟨'o', "oloperator".toList, rfl, by simp⟩⟩
  | hashCode => exact ⟨'i', "ntgethashCode".toList, rfl,
      .inr ⟨'n', "tgethashCode".toList, rfl, by simp⟩⟩

theorem unlike_of_head (upper : ∃ c rest, name = c :: rest ∧ c.isUpper)
    (method : kind ≠ .constructor) (low : c.isUpper = false) (foreign : c ∉ ['f', 'b', 'i'])
    (solid : isBlank c = false) :
    ¬ Like name kind (c :: rest) := by
  obtain ⟨d, more, same, first⟩ := head_leadWord upper method
  rw [Like, same, Text.ink_cons solid, List.cons_append, List.cons_prefix_cons]
  rintro ⟨rfl, -⟩
  rcases first with up | ⟨e, tail, -, ⟨rfl, -⟩ | ⟨rfl, -⟩ | ⟨rfl, -⟩⟩
  · simp [up] at low
  · exact foreign (by decide)
  · exact foreign (by decide)
  · exact foreign (by decide)

theorem unlike_nil (upper : ∃ c rest, name = c :: rest ∧ c.isUpper) (method : kind ≠ .constructor)
    (blank : line.isBlankText) : ¬ Like name kind line := by
  obtain ⟨d, more, same, -⟩ := head_leadWord upper method
  rw [Like, same, Text.ink_of_isBlankText blank]
  simp

theorem unlike_of_keyword (upper : ∃ c rest, name = c :: rest ∧ c.isUpper)
    (method : kind ≠ .constructor) {d : Char} (ink : line.ink = c :: d :: rest)
    (keyword : c = 'f' ∧ d = 'i' ∨ c = 'i' ∧ d = 'f') : ¬ Like name kind line := by
  obtain ⟨e, tail, same, first⟩ := head_leadWord upper method
  rw [Like, ink, same, List.cons_append, List.cons_prefix_cons]
  rintro ⟨rfl, starts⟩
  rcases first with up | ⟨g, more, rfl, second⟩
  · rcases keyword with ⟨rfl, -⟩ | ⟨rfl, -⟩ <;> exact absurd up (by decide)
  · rw [List.cons_append, List.cons_prefix_cons] at starts
    obtain ⟨rfl, -⟩ := starts
    rcases keyword with ⟨rfl, rfl⟩ | ⟨rfl, rfl⟩ <;> exact absurd second (by decide)

end Unlike

/-! ## Members apart -/

def firstLetter (name : Text) : MemberKind → Option Char
  | .constructor => none
  | .copyWith => name.head?
  | .toMap => 'M'
  | .fromMap | .fromJson => 'f'
  | .toJson | .toString => 'S'
  | .equality => 'b'
  | .hashCode => 'i'
  | .props => 'L'

def lastLetter (name : Text) : MemberKind → Option Char
  | .constructor => none
  | .copyWith => 'h'
  | .toMap => 'p'
  | .fromMap | .fromJson => name.getLast?
  | .toJson => 'n'
  | .toString => 'g'
  | .equality => 'r'
  | .hashCode => 'e'
  | .props => 't'

section Apart

variable {name line : Text} (upper : ∃ c rest, name = c :: rest ∧ c.isUpper)
  {kind other : MemberKind}

include upper

theorem head?_leadWord (kind : MemberKind) :
    (leadWord name kind).head? = firstLetter name kind := by
  obtain ⟨c, rest, rfl, -⟩ := upper
  cases kind <;> rfl

theorem getLast?_leadWord (kind : MemberKind) :
    (leadWord name kind).getLast? = lastLetter name kind := by
  obtain ⟨c, rest, rfl, -⟩ := upper
  cases kind with
  | copyWith =>
      show ((c :: rest) ++ "copyWith".toList).getLast? = some 'h'
      rw [List.getLast?_append]
      rfl
  | fromMap | fromJson =>
      show ("factory".toList ++ c :: rest).getLast? = (c :: rest).getLast?
      rw [List.getLast?_append, List.getLast?_cons]
      rfl
  | constructor | toMap | toJson | toString | equality | hashCode | props => rfl

theorem leadWord_injective (same : leadWord name kind = leadWord name other) :
    kind = other ∨ kind = .fromMap ∧ other = .fromJson ∨ kind = .fromJson ∧ other = .fromMap := by
  have heads : firstLetter name kind = firstLetter name other := by
    rw [← head?_leadWord upper, ← head?_leadWord upper, same]
  have lasts : lastLetter name kind = lastLetter name other := by
    rw [← getLast?_leadWord upper, ← getLast?_leadWord upper, same]
  obtain ⟨c, rest, rfl, up⟩ := upper
  have low : c ≠ 'f' ∧ c ≠ 'b' ∧ c ≠ 'i' := by
    refine ⟨?_, ?_, ?_⟩ <;> (rintro rfl; exact absurd up (by decide))
  cases kind <;> cases other <;>
    first
      | exact .inl rfl
      | exact .inr (.inl ⟨rfl, rfl⟩)
      | exact .inr (.inr ⟨rfl, rfl⟩)
      | (simp [lastLetter] at lasts; done)
      | simp [firstLetter, low, eq_comm] at heads

theorem eq_hashCode_of_firstLetter (first : firstLetter name kind = firstLetter name .hashCode) :
    kind = .hashCode := by
  obtain ⟨c, rest, rfl, up⟩ := upper
  have low : c ≠ 'i' := by
    rintro rfl
    exact absurd up (by decide)
  cases kind <;> simp [firstLetter, low] at first ⊢

/-- A line that starts like one member starts like no other. -/
theorem unlike_of_like (plain : ∀ d ∈ name, Text.isPlain d) (method : kind ≠ .constructor)
    (otherMethod : other ≠ .constructor) (like : Like name other line) (differ : kind ≠ other) :
    ¬ Like name kind line := by
  intro also
  have heads : firstLetter name kind = firstLetter name other := by
    obtain ⟨c, rest, word, -⟩ := head_leadWord upper method
    obtain ⟨d, more, otherWord, -⟩ := head_leadWord upper otherMethod
    rw [← head?_leadWord upper, ← head?_leadWord upper, word, otherWord]
    rw [Like, word] at also
    rw [Like, otherWord] at like
    obtain ⟨t, ht⟩ := also
    obtain ⟨u, hu⟩ := like
    have := ht.trans hu.symm
    simp only [List.cons_append, List.cons.injEq] at this
    simp [this.1]
  have marked : kind ≠ .hashCode ∧ other ≠ .hashCode := by
    constructor
    · rintro rfl
      exact differ (eq_hashCode_of_firstLetter upper heads.symm).symm
    · rintro rfl
      exact differ (eq_hashCode_of_firstLetter upper heads)
  obtain ⟨mark, rest, same, -, stop⟩ := leadRest_eq otherMethod marked.2
  obtain ⟨tail, whole⟩ := like
  have ink : line.ink = leadWord name other ++ mark :: (rest ++ tail) := by
    rw [← whole, same]
    simp
  obtain ⟨word, starts⟩ :=
    (like_iff plain method marked.1 (plain_leadWord plain other) stop ink).mp also
  have behind : leadRest kind <+: leadRest other ++ tail := by
    rw [same]
    exact starts
  rcases leadWord_injective upper word with equal | ⟨rfl, rfl⟩ | ⟨rfl, rfl⟩
  · exact differ equal
  · have : ".fromMap(".toList <+: ".fromJson(".toList ++ tail := behind
    simp [List.cons_prefix_cons] at this
  · have : ".fromJson(".toList <+: ".fromMap(".toList ++ tail := behind
    simp [List.cons_prefix_cons] at this

end Apart

end ValueClass.Dart
