import ValueClass.Proofs.Fresh.ShortMethods
import ValueClass.Proofs.Member.Pending

/-! # The equality of a fresh class

Equality compares collections by a helper, which may be declared in the method
itself. With it every method of a fresh class has a sheet.
-/

namespace ValueClass.Fresh

open Dart Dart.Line

/-! ## Helpers -/

structure IsValue (line : Text) : Prop where
  isFinal : "final".toList ∈ line.words
  value : '=' ∈ line
  last : line.getLast? = some ';'

/-- What is known about a function that compares collections. -/
structure KnownHelper (h : EqualityHelper) : Prop where
  word : ∀ e ∈ h.function, isWordChar e
  light : h.function.all isLight
  head : ∃ e rest, h.function = e :: rest ∧ e.isUpper = false ∧ e ∉ ['f', 'b', 'i'] ∧
    isBlank e = false
  plain : h.function ∉ Header.openers
  noKeyword : ∀ rest, Text.dropStart? "const ".toList (h.function ++ '(' :: rest) = none
  declaration : ∀ line, h.declaration = some line →
    line.all isLight ∧ "class".toList ∉ line.words ∧ (∃ rest, line = 'f' :: 'i' :: rest) ∧
      IsValue line

theorem knownHelper_deep : KnownHelper EqualityHelper.deep := by
  refine ⟨by decide, by decide, ⟨_, _, rfl, by decide, by decide, by decide⟩, by decide,
    fun _ => rfl, ?_⟩
  rintro line ⟨⟩
  exact ⟨rfl, by decide, ⟨_, rfl⟩, ⟨by decide, by decide, rfl⟩⟩

theorem knownHelper_ofKind (flutter : Bool) (kind : Collection) :
    KnownHelper (EqualityHelper.ofKind flutter kind) := by
  have named : ∀ kind, let name := EqualityHelper.functionName kind
      (∀ e ∈ name, isWordChar e) ∧ name.all isLight ∧ name ∉ Header.openers := by
    intro kind
    cases kind <;> decide
  have head : ∃ e rest, EqualityHelper.functionName kind = e :: rest ∧ e.isUpper = false ∧
      e ∉ ['f', 'b', 'i'] ∧ isBlank e = false := by
    cases kind <;> exact ⟨_, _, rfl, by decide, by decide, by decide⟩
  have declared : ∀ kind : Collection,
      let line : Text :=
        "final ".toList ++ EqualityHelper.functionName kind ++ " = const ".toList ++ kind.name ++
        "Equality().equals;".toList
      line.all isLight ∧ "class".toList ∉ line.words ∧ "final".toList ∈ line.words ∧ '=' ∈ line ∧
        line.getLast? = some ';' := by
    intro kind
    cases kind <;> decide
  have noKeyword : ∀ rest,
      Text.dropStart? "const ".toList (EqualityHelper.functionName kind ++ '(' :: rest) = none := by
    intro rest
    cases kind <;> rfl
  obtain ⟨word, light, plain⟩ := named kind
  cases flutter with
  | true => exact ⟨word, light, head, plain, noKeyword, by rintro line ⟨⟩⟩
  | false =>
      refine ⟨word, light, head, plain, noKeyword, ?_⟩
      rintro line ⟨⟩
      obtain ⟨lineLight, words, isFinal, value, last⟩ := declared kind
      exact ⟨lineLight, words, ⟨_, rfl⟩, ⟨isFinal, value, last⟩⟩

theorem knownHelper {fields : List Field} {flutter : Bool} {h : EqualityHelper}
    (helper : EqualityHelper.forFields fields flutter = some h) : KnownHelper h := by
  unfold EqualityHelper.forFields at helper
  split at helper
  · cases helper
  · cases helper
    split
    · exact knownHelper_ofKind flutter _
    · exact knownHelper_deep

-- The word `final` may open a header, so the line has to be told apart by all its words.
theorem written_declaration {line : Text} (light : line.all isLight)
    (words : "class".toList ∉ line.words) :
    Written 0 line := by
  refine ⟨snippet_light light, ?_⟩
  intro blanks blank
  rw [Bool.eq_false_iff]
  intro header
  have inside := Header.class_mem_words header
  rw [← Header.words_trimStart, Text.trimStart_append_of_blank blank,
    Header.words_trimStart] at inside
  exact words inside

/-! ## The method -/

namespace ClassText

variable (c : ClassText) {indent : Text}

def comparison (helper : Option EqualityHelper) (f : FieldText) : Text :=
  match helper with
  | some h =>
    if (f.field 1).isCollection then h.function ++ "(other." ++ f.name ++ ", " ++ f.name ++ ")"
    else "other." ++ f.name ++ " == " ++ f.name
  | none => "other." ++ f.name ++ " == " ++ f.name

def comparisonEnds : List Text :=
  [" &&", ";"]

theorem light_comparisonEnds : ∀ behind ∈ comparisonEnds, behind.all isLight := by decide

def equalityBody (indent : Text) (helper : Option EqualityHelper) : List Text :=
  "if (identical(this, other)) return true;".toList ::
    ((helper.bind (·.declaration)).map fun line => [line]).getD [] ++ [[]] ++
      (("return".toList ++ ' ' :: ("other is ".toList ++ c.name ++ " &&".toList)) ::
        (Method.chain " &&".toList (c.fields.map (comparison helper))).map fun line =>
          indent ++ line)

theorem equality_eq (helper : Option EqualityHelper) :
    Method.equality indent helper c.plain =
      Method.overrideMark ++ Method.block indent "bool operator ==(Object other)".toList
        (c.equalityBody indent helper) := by
  have result : "return other is ".toList ++ c.name ++ " &&".toList =
      "return".toList ++ ' ' :: ("other is ".toList ++ c.name ++ " &&".toList) := by
    have front : "return other is ".toList = "return".toList ++ ' ' :: "other is ".toList := rfl
    rw [front]
    simp only [List.append_assoc, List.cons_append]
  unfold Method.equality equalityBody
  dsimp only
  rw [plain_fields, List.map_map, plain_type, result]
  cases helper with
  | none => rfl
  | some h => rfl

theorem mem_equalityBody {helper : Option EqualityHelper} {line : Text}
    (member : line ∈ c.equalityBody indent helper) :
    line = "if (identical(this, other)) return true;".toList ∨
      (∃ h, helper = some h ∧ h.declaration = some line) ∨ line = [] ∨
      line = "return".toList ++ ' ' :: ("other is ".toList ++ c.name ++ " &&".toList) ∨
      ∃ f ∈ c.fields, ∃ behind ∈ comparisonEnds,
        line = indent ++ (comparison helper f ++ behind) := by
  unfold equalityBody at member
  simp only [List.cons_append, List.append_assoc, List.mem_cons, List.mem_append, List.not_mem_nil,
    List.mem_map, false_or] at member
  rcases member with rfl | member | rfl | rfl | ⟨old, known, rfl⟩
  · exact .inl rfl
  · cases helper with
    | none => simp at member
    | some h =>
        cases declared : h.declaration with
        | none => simp [declared] at member
        | some text =>
            simp only [Option.bind_some, declared, Option.map_some, Option.getD_some,
              List.mem_singleton] at member
            exact .inr (.inl ⟨h, rfl, by rw [member, declared]⟩)
  · exact .inr (.inr (.inl rfl))
  · exact .inr (.inr (.inr (.inl rfl)))
  · obtain ⟨t, compared, same⟩ := mem_chain known
    obtain ⟨f, inside, rfl⟩ := List.mem_map.mp compared
    refine .inr (.inr (.inr (.inr ⟨f, inside, ?_⟩)))
    rcases same with rfl | rfl
    · exact ⟨" &&".toList, by decide, rfl⟩
    · exact ⟨";".toList, by decide, rfl⟩

theorem written_comparison {helper : Option EqualityHelper}
    (known : ∀ h, helper = some h → KnownHelper h) (f : FieldText) {behind : Text}
    (light : behind.all isLight) : Written 0 (comparison helper f ++ behind) := by
  have plain : Written 0 ("other.".toList ++ f.name ++ " == ".toList ++ f.name ++ behind) := by
    have front : "other.".toList = "other".toList ++ ['.'] := by decide
    have whole : ("other".toList ++ '.' :: (f.name ++ (" == ".toList ++ (f.name ++ behind)))).all
        isLight := by
      rw [List.all_append, List.all_cons, List.all_append, List.all_append, List.all_append,
        f.isIdentifier.light, light]
      decide
    rw [front]
    simp only [List.append_assoc, List.cons_append, List.nil_append]
    exact written_word (snippet_light whole) (by decide) (by decide) (by decide) (.inl (by decide))
  cases helper with
  | none => exact plain
  | some h =>
      unfold comparison
      dsimp only
      split
      · have helped := known h rfl
        have front : "(other.".toList = '(' :: "other.".toList := by decide
        have whole : (h.function ++ '(' :: ("other.".toList ++ (f.name ++ (", ".toList ++ (f.name ++
            (")".toList ++ behind)))))).all isLight := by
          rw [List.all_append, List.all_cons, List.all_append, List.all_append, List.all_append,
            List.all_append, List.all_append, f.isIdentifier.light, helped.light, light]
          decide
        obtain ⟨e, rest, same, -⟩ := helped.head
        rw [front]
        simp only [List.append_assoc, List.cons_append]
        exact written_word (snippet_light whole) helped.word (by simp [same]) (by decide)
          (.inr (by decide))
      · exact plain

theorem unlike_comparison {helper : Option EqualityHelper}
    (known : ∀ h, helper = some h → KnownHelper h) (f : FieldText) (behind : Text)
    {kind : MemberKind} (method : kind ≠ .constructor) :
    ¬ Like c.name kind (comparison helper f ++ behind) := by
  have plain : ¬ Like c.name kind
      ("other.".toList ++ f.name ++ " == ".toList ++ f.name ++ behind) := by
    simp only [List.append_assoc]
    exact unlike_of_head (c := 'o') c.upper method (by decide) (by decide) (by decide)
  cases helper with
  | none => exact plain
  | some h =>
      unfold comparison
      dsimp only
      split
      · obtain ⟨e, rest, same, low, foreign, solid⟩ := (known h rfl).head
        rw [same]
        simp only [List.append_assoc, List.cons_append]
        exact unlike_of_head c.upper method low foreign solid
      · exact plain

theorem getLast?_comparison {behind : Text} (ends : behind ∈ comparisonEnds) (front : Text) :
    ∀ d, (front ++ behind).getLast? = some d → isBlank d = false := by
  have solid : ∀ behind ∈ comparisonEnds, behind.getLast?.map isBlank = some false := by decide
  obtain ⟨e, last, known⟩ := Option.map_eq_some_iff.mp (solid behind ends)
  intro d same
  rw [List.getLast?_append, last, Option.some_or] at same
  cases same
  exact known

theorem light_result :
    ("return".toList ++ ' ' :: ("other is ".toList ++ c.name ++ " &&".toList)).all isLight := by
  rw [List.all_append, List.all_cons, List.all_append, List.all_append, c.light_name]
  decide

theorem solid_result :
    Solid ("return".toList ++ ' ' :: ("other is ".toList ++ c.name ++ " &&".toList)) := by
  refine ⟨by rintro d ⟨⟩; decide, ?_⟩
  rw [← List.cons_append, ← List.append_assoc]
  exact getLast?_comparison (by decide) _

theorem return_mem_result :
    "return".toList ∈ Text.words
      ("return".toList ++ ' ' :: ("other is ".toList ++ c.name ++ " &&".toList)) := by
  rw [Text.words_append (by decide)]
  exact List.mem_append_left _ (by decide)

theorem written_equalityBody (ind : IsIndent indent) {helper : Option EqualityHelper}
    (known : ∀ h, helper = some h → KnownHelper h) :
    ∀ line ∈ c.equalityBody indent helper, Written 0 line := by
  intro line member
  rcases c.mem_equalityBody member with rfl | ⟨h, rfl, declared⟩ | rfl | rfl | ⟨f, -,
    behind, ends, rfl⟩
  · exact written_word (w := "if".toList) (snippet_light (by rfl)) (by decide)
      (by decide) (by decide)
      (.inl (by decide))
  · obtain ⟨light, words, -⟩ := (known h rfl).declaration line declared
    exact written_declaration light words
  · exact written_nil
  · have light := c.light_result
    rw [List.all_append, List.all_cons] at light
    simp only [Bool.and_eq_true] at light
    exact written_return (snippet_light light.2.2)
  · exact (written_comparison known f (light_comparisonEnds behind ends)).indent ind.blank ind.light

theorem unlike_equalityBody (ind : IsIndent indent) {helper : Option EqualityHelper}
    (known : ∀ h, helper = some h → KnownHelper h) {kind : MemberKind}
    (method : kind ≠ .constructor) :
    ∀ line ∈ c.equalityBody indent helper, ¬ Like c.name kind line := by
  intro line member
  rcases c.mem_equalityBody member with rfl | ⟨h, rfl, declared⟩ | rfl | rfl | ⟨f, -,
    behind, -, rfl⟩
  · exact unlike_of_keyword c.upper method (Text.ink_cons (c := 'i') (by decide) _)
      (.inr ⟨rfl, rfl⟩)
  · obtain ⟨-, -, ⟨rest, rfl⟩, -⟩ := (known h rfl).declaration line declared
    have ink : Text.ink ('f' :: 'i' :: rest) = 'f' :: 'i' :: Text.ink rest := by
      rw [Text.ink_cons (by decide), Text.ink_cons (by decide)]
    exact unlike_of_keyword c.upper method ink (.inl ⟨rfl, rfl⟩)
  · exact unlike_nil c.upper method rfl
  · exact unlike_return method
  · rw [like_indent ind]
    exact c.unlike_comparison known f behind method

/-! ## Calm bodies -/

theorem tame_value {line : Text} (ind : IsIndent indent) (light : line.all isLight)
    (value : IsValue line) {rest : Text} (head : line = 'f' :: rest) :
    Tame c.name (indent ++ line) := by
  have solid : Solid line := by
    refine ⟨?_, ?_⟩
    · intro d first
      rw [head] at first
      cases first
      decide
    · intro d last
      rw [value.last] at last
      cases last
      decide
  refine ⟨c.opensConstructor_of_head ((ind.trim solid).trans head) (by decide) (by decide),
    fun _ => not_showsField ?_⟩
  have assigned : (line.words.contains "final".toList && line.contains '=') = true := by
    rw [Bool.and_eq_true, List.contains_iff_mem, List.contains_iff_mem]
    exact ⟨value.isFinal, value.value⟩
  simp only [isField, code_indent ind light solid, assigned]
  simp

theorem tame_word {line rest word : Text} {d : Char} (ind : IsIndent indent)
    (light : line.all isLight) (solid : Solid line) (head : line = d :: rest)
    (low : d.isUpper = false) (foreign : d ≠ 'c') (inside : word ∈ line.words)
    (excluded : word ∈ excludedWords) : Tame c.name (indent ++ line) := by
  refine ⟨c.opensConstructor_of_head ((ind.trim solid).trans head) low foreign,
    fun _ => not_showsField ?_⟩
  have found : line.words.any (fun word => excludedWords.contains word) = true :=
    List.any_eq_true.mpr ⟨word, inside, List.contains_iff_mem.mpr excluded⟩
  simp only [isField, code_indent ind light solid, found]
  simp

theorem light_comparison (f : FieldText) {behind : Text} (light : behind.all isLight) :
    ("other.".toList ++ f.name ++ " == ".toList ++ f.name ++ behind).all isLight := by
  rw [List.all_append, List.all_append, List.all_append, List.all_append, f.isIdentifier.light,
    light]
  decide

theorem solid_comparison (f : FieldText) {behind : Text} (ends : behind ∈ comparisonEnds) :
    Solid ("other.".toList ++ f.name ++ " == ".toList ++ f.name ++ behind) := by
  refine ⟨?_, getLast?_comparison ends _⟩
  simp only [List.append_assoc]
  rintro d ⟨⟩
  decide

/-- The first token of a comparison is followed by an equality sign, so there is no type. -/
theorem field?_comparison (ind : IsIndent indent) (f : FieldText) {behind : Text}
    (ends : behind ∈ comparisonEnds) (lineNo : Nat) (previous : Text) :
    field? (indent ++ ("other.".toList ++ f.name ++ " == ".toList ++ f.name ++ behind)) lineNo
      previous = none := by
  have passes : Text.Passes angleStep isBlank 0 ("other.".toList ++ f.name) 0 :=
    (Text.passes_of_forall (by decide) 0).append (f.isIdentifier.passes 0)
  have parts : "other.".toList ++ f.name ++ " == ".toList ++ f.name ++ behind =
      ("other.".toList ++ f.name) ++ ' ' :: ("==".toList ++ ' ' :: (f.name ++ behind)) := by
    simp only [List.append_assoc]
    rfl
  have tokens : Text.tokens
      (("other.".toList ++ f.name) ++ ' ' :: ("==".toList ++ ' ' :: (f.name ++ behind))) =
      ("other.".toList ++ f.name) :: "==".toList :: Text.tokens (f.name ++ behind) := by
    rw [Text.tokens_cons passes (by simp) (by decide),
      Text.tokens_cons (Text.passes_of_forall (by decide) 0) (by decide) (by decide)]
  have unmarked : fieldMarkers.contains ("other.".toList ++ f.name) = false := by
    rw [Bool.eq_false_iff, ne_eq, List.contains_iff_mem]
    intro member
    have listed : ∀ word ∈ fieldMarkers, '.' ∉ word := by decide
    exact listed _ member (by simp)
  have noSign : '=' ∉ "other.".toList ++ f.name := by
    rw [List.mem_append, not_or]
    exact ⟨by decide, f.isIdentifier.notMem (by decide)⟩
  have noEnd : Text.endsWith ("other.".toList ++ f.name) ";" = false := by
    rw [Bool.eq_false_iff]
    intro suffix
    have := (List.isSuffixOf_iff_suffix.mp suffix).subset (show ';' ∈ ";".toList by decide)
    rw [List.mem_append] at this
    exact this.elim (absurd · (by decide)) (f.isIdentifier.notMem (by decide))
  have split : ∀ rest, splitDeclaration (("other.".toList ++ f.name) :: "==".toList :: rest) =
      some ([], "other.".toList ++ f.name) := by
    intro rest
    have uncut : Text.cut? "=".toList ("other.".toList ++ f.name) = none := Text.cut?_eq_none noSign
    rw [splitDeclaration, uncut]
    simp only [noEnd]
    rfl
  rw [field?]
  simp only [trim_withoutComment ind (light_comparison f (light_comparisonEnds behind ends))
    (solid_comparison f ends)]
  rw [parts, tokens, List.filter_cons_of_pos (by rw [unmarked]; rfl),
    List.filter_cons_of_pos (by decide), split]

theorem splitDeclaration_eq_none {tokens : List Text}
    (plain : ∀ token ∈ tokens, '=' ∉ token ∧ ';' ∉ token) :
    splitDeclaration tokens = none := by
  induction tokens with
  | nil => rfl
  | cons token rest ih =>
      obtain ⟨noSign, noEnd⟩ := plain token (by simp)
      have goes : token.endsWith ";" = false := by
        rw [Bool.eq_false_iff]
        intro suffix
        exact noEnd ((List.isSuffixOf_iff_suffix.mp suffix).subset
          (show ';' ∈ ";".toList by decide))
      have next : (rest.head?.getD []).startsWith "=" = false := by
        rw [Bool.eq_false_iff]
        intro starts
        have sign := (List.isPrefixOf_iff_prefix.mp starts).subset (show '=' ∈ "=".toList by decide)
        cases rest with
        | nil => simp at sign
        | cons second others => exact (plain second (by simp)).1 sign
      have uncut : Text.cut? "=".toList token = none := Text.cut?_eq_none noSign
      rw [splitDeclaration, uncut]
      simp only [goes, next, Bool.false_eq_true, ↓reduceIte]
      rw [ih fun other member => plain other (List.mem_cons_of_mem _ member)]
      rfl

/-- A call of a helper ends like a call, or declares no name. -/
theorem tame_call (ind : IsIndent indent) {h : EqualityHelper} (known : KnownHelper h)
    (f : FieldText) {behind : Text} (ends : behind ∈ comparisonEnds) :
    Tame c.name (indent ++ (h.function ++ "(other.".toList ++ f.name ++ ", ".toList ++ f.name ++
      ")".toList ++ behind)) := by
  obtain ⟨e, rest, head, low, -, dark⟩ := known.head
  have light : (h.function ++ "(other.".toList ++ f.name ++ ", ".toList ++ f.name ++ ")".toList ++
    behind).all isLight := by
    simp only [List.all_append, known.light, f.isIdentifier.light, light_comparisonEnds behind ends]
    decide
  have solid : Solid (h.function ++ "(other.".toList ++ f.name ++ ", ".toList ++ f.name ++
    ")".toList ++ behind) := by
    refine ⟨?_, getLast?_comparison ends _⟩
    intro d first
    rw [head] at first
    simp only [List.append_assoc, List.cons_append, List.head?_cons] at first
    cases first
    exact dark
  refine ⟨?_, fun _ => ?_⟩
  · have trimmed := ind.trim solid
    have keyword := known.noKeyword
        ("other.".toList ++ (f.name ++ (", ".toList ++ (f.name ++ (")".toList ++ behind)))))
    have front : "(other.".toList = '(' :: "other.".toList := rfl
    rw [front, head] at trimmed ⊢
    rw [head] at keyword
    simp only [List.append_assoc, List.cons_append] at trimmed keyword ⊢
    exact c.opensConstructor_of_low trimmed low keyword
  · rcases List.mem_cons.mp ends with rfl | ends
    · refine not_showsField_of_field? fun lineNo previous => ?_
      have absent : ∀ d ∈ ['=', ';'],
          d ∉ h.function ++ "(other.".toList ++ f.name ++ ", ".toList ++ f.name ++ ")".toList ++
            " &&".toList := by
        intro d odd
        have marks : ∀ d ∈ ['=', ';'], isWordChar d = false ∧ Text.isPlain d = false ∧
            d ∉ "(other.".toList ∧
          d ∉ ", ".toList ∧ d ∉ ")".toList ∧ d ∉ " &&".toList := by decide
        obtain ⟨foreign, strange, dot, comma, paren, both⟩ := marks d odd
        have noFunction : d ∉ h.function :=
          fun member => absurd (known.word d member) (by simp [foreign])
        simp only [List.mem_append, not_or]
        exact ⟨⟨⟨⟨⟨⟨noFunction, dot⟩, f.isIdentifier.notMem strange⟩, comma⟩,
          f.isIdentifier.notMem strange⟩, paren⟩,
          both⟩
      rw [field?]
      simp only [trim_withoutComment ind light solid]
      rw [splitDeclaration_eq_none]
      intro token member
      have inside := Text.subset_of_mem_tokens (List.mem_filter.mp member).1
      exact ⟨fun sign => absent '=' (by decide) (inside sign),
        fun stop => absent ';' (by decide) (inside stop)⟩
    · rw [List.mem_singleton.mp ends] at light solid ⊢
      refine not_showsField ?_
      have call : Text.endsWith
          (h.function ++ "(other.".toList ++ f.name ++ ", ".toList ++ f.name ++ ")".toList ++
          ";".toList) ");" = true := by
        rw [List.append_assoc]
        exact List.isSuffixOf_iff_suffix.mpr (List.suffix_append _ _)
      simp only [isField, code_indent ind light solid, call]
      simp

theorem tame_comparison (ind : IsIndent indent) {helper : Option EqualityHelper}
    (known : ∀ h, helper = some h → KnownHelper h) (f : FieldText) {behind : Text}
    (ends : behind ∈ comparisonEnds) : Tame c.name (indent ++ (comparison helper f ++ behind)) := by
  have plain : Tame c.name
      (indent ++ ("other.".toList ++ f.name ++ " == ".toList ++ f.name ++ behind)) := by
    refine ⟨?_, fun _ => not_showsField_of_field? (field?_comparison ind f ends)⟩
    have trimmed := ind.trim (solid_comparison f ends)
    simp only [List.append_assoc] at trimmed ⊢
    exact c.opensConstructor_of_head (d := 'o') trimmed (by decide) (by decide)
  cases helper with
  | none => exact plain
  | some h =>
      unfold comparison
      dsimp only
      split
      · exact c.tame_call ind (known h rfl) f ends
      · exact plain

theorem calm_equalityBody (ind : IsIndent indent) {helper : Option EqualityHelper}
    (known : ∀ h, helper = some h → KnownHelper h) :
    Calm c.name true ((bodyLines indent (c.equalityBody indent helper)).map (indented indent)) := by
  have written := written_bodyLines ind (c.written_equalityBody ind known)
  have mild : ∀ line ∈ (bodyLines indent (c.equalityBody indent helper)).map (indented indent),
      Mild line := by
    intro line member
    obtain ⟨old, inside, rfl⟩ := List.mem_map.mp member
    exact mild_of_written ((written old inside).indented ind.blank ind.light)
      (by decide) (by decide)
  refine calm_of_tame ?_
  intro line member
  refine ⟨mild line member, ?_⟩
  have deep := ind.append ind
  obtain ⟨old, inside, blank | rfl⟩ := mem_indented_bodyLines ind member
  · exact tame_of_isBlankText blank
  · rcases c.mem_equalityBody inside with rfl | ⟨h, rfl, declared⟩ | rfl | rfl | ⟨f, -,
      behind, ends, rfl⟩
    · exact c.tame_word deep rfl (solid_of_all (by decide) (by decide)) rfl (by decide) (by decide)
        (show "return".toList ∈ _ by decide) (by decide)
    · obtain ⟨light, -, ⟨rest, head⟩, value⟩ := (known h rfl).declaration old declared
      exact c.tame_value deep light value head
    · rw [List.append_nil]
      exact tame_of_isBlankText deep.blank
    · exact c.tame_word deep c.light_result c.solid_result rfl (by decide)
        (by decide) c.return_mem_result (by decide)
    · rw [← List.append_assoc]
      exact c.tame_comparison (deep.append ind) known f ends

theorem equality_sheet (ind : IsIndent indent) {helper : Option EqualityHelper}
    (known : ∀ h, helper = some h → KnownHelper h) :
    ∃ first more, Sheet c indent (Method.equality indent helper c.plain) .equality first more := by
  have like : "booloperator".toList ++ "==".toList <+:
      Text.ink ("bool".toList ++ ' ' :: "operator ==(Object other) \x7b".toList) := ⟨_, rfl⟩
  have first : Written 1 ("bool".toList ++ ' ' :: "operator ==(Object other) \x7b".toList) :=
    written_word (snippet_of_unquoted (by decide) (by decide)) (by decide) (by decide) (by decide)
      (.inl (by decide))
  refine ⟨_, _, sheet_level ind (c.equality_eq helper) (by rfl) first (by decide)
    (by decide) (by decide)
    (by decide) (by decide) (.inl (by decide)) (c.written_equalityBody ind known) like ?_
    (c.calm_equalityBody ind known)⟩
  intro line member later method _ _
  exact c.unlike_equalityBody ind known method line member

theorem exists_sheet (s : Surroundings) (ind : IsIndent s.indent) {kind : MemberKind}
    (method : kind ≠ .constructor) :
    ∃ first more, Sheet c s.indent (methodText s c.plain kind) kind first more := by
  cases kind with
  | constructor => exact absurd rfl method
  | copyWith => exact ⟨_, _, c.copyWith_sheet ind⟩
  | toMap => exact ⟨_, _, c.toMap_sheet ind s.fromJson⟩
  | fromMap => exact ⟨_, _, c.fromMap_sheet ind s.style.mapDefaults s.fromJson⟩
  | toJson =>
      obtain ⟨first, sheet⟩ := c.toJson_sheet ind
      exact ⟨first, [], sheet⟩
  | fromJson =>
      obtain ⟨first, sheet⟩ := c.fromJson_sheet ind
      exact ⟨first, [], sheet⟩
  | toString => exact c.toString_sheet ind
  | equality => exact c.equality_sheet ind fun h helper => knownHelper helper
  | hashCode => exact c.hashCode_sheet ind s.style.hashStrategy
  | props => exact c.props_sheet ind

end ClassText

end ValueClass.Fresh
