import ValueClass.Proofs.Dart.Weight
import ValueClass.Proofs.Member.Rewritten

/-! # Formal parameters

The parameters of a constructor as they are meant: those that bind a field, with all that
may stand around its name, and the others. One that binds a field is read to do so under
conditions, and where it is not, it is taken for one of the others.
-/

namespace ValueClass

namespace Text

def lastLine (t : Text) : Text :=
  t.rtakeWhile (· != '\n')

theorem lastLine_subset (t : Text) : ∀ c ∈ lastLine t, c ∈ t := by
  intro c member
  exact (List.rtakeWhile_suffix _ t).subset member

theorem lastLine_append {a b : Text} (oneLine : '\n' ∉ b) :
    lastLine (a ++ b) = lastLine a ++ b := by
  have all : ∀ c ∈ b.reverse, (c != '\n') = true := by
    intro c member
    rw [bne_iff_ne]
    rintro rfl
    exact oneLine (List.mem_reverse.mp member)
  simp only [lastLine, List.rtakeWhile, List.reverse_append, List.takeWhile_append_of_pos all,
    List.reverse_reverse]

theorem infix_append_iff {d : Char} {part a b : Text} (none : d ∉ a) :
    (d :: part) <:+: a ++ b ↔ (d :: part) <:+: b := by
  induction a with
  | nil => rfl
  | cons c rest ih =>
      rw [List.mem_cons, not_or] at none
      rw [List.cons_append, List.infix_cons_iff, ih none.2, List.cons_prefix_cons]
      simp [none.1]

end Text

namespace Dart

open FieldParam (IsMark IsTail IsParam isNameChar isNameChar_of_isWordChar)

namespace FieldParam

/-! ## Tails -/

theorem IsTail.ended {tail : Text} {default? : Option Text} (isTail : IsTail tail default?) :
    ∀ c ∈ tail.head?, isNameChar c = false := by
  have blanks : ∀ {blanks : Text}, blanks.isBlankText →
      ∀ c ∈ blanks.head?, isNameChar c = false := by
    intro blanks blank c first
    have here := List.all_eq_true.mp blank c (List.mem_of_head? first)
    rw [← Bool.not_eq_true]
    intro word
    rw [FieldParam.isBlank_of_isNameChar word] at here
    cases here
  cases isTail with
  | bare blank => exact blanks blank
  | @value before after expression left =>
      cases before with
      | nil =>
          rintro c ⟨⟩
          decide
      | cons d rest => exact @blanks (d :: rest) left

theorem IsTail.trimStart {tail : Text} {default? : Option Text} (isTail : IsTail tail default?) :
    (tail.trimStart = [] ∧ default? = none) ∨
      ∃ value expression : Text, tail.trimStart = '=' :: value ∧ default? = some expression ∧
        value.trimStart = expression ∧
        '\n' ∉ expression := by
  cases isTail with
  | bare blank =>
      have none := Text.trimStart_append_of_blank blank []
      rw [List.append_nil] at none
      exact .inl ⟨none, rfl⟩
  | @value before after expression left right some trimmed whole =>
      refine .inr ⟨after ++ expression, expression, ?_, rfl, ?_, whole⟩
      · rw [Text.trimStart_append_of_blank left, Text.trimStart_cons (by decide)]
      · rw [Text.trimStart_append_of_blank right, trimmed]

end FieldParam

/-! ## Parameters that bind a field -/

structure Binding where
  /-- What stands before the name: marks, a type, a comment, and `this` with its dot. -/
  front : Text
  /-- The name of the field. -/
  name : Text
  /-- What stands between the name and the default value. -/
  back : Text
  /-- What stands behind the equals sign. -/
  default? : Option Text
  deriving Repr, DecidableEq

namespace Binding

def value (b : Binding) : Text :=
  (b.default?.map ('=' :: ·)).getD []

def text (b : Binding) : Text :=
  b.front ++ (b.name ++ (b.back ++ b.value))

def expression? (b : Binding) : Option Text :=
  b.default?.map Text.trimStart

/-- The parts are those that they are taken for. -/
structure IsFormed (b : Binding) : Prop where
  binds : ∃ before gap behind :
    Text, b.front = before ++ ("this".toList ++ (gap ++ '.' :: behind)) ∧
    gap.isBlankText ∧ behind.isBlankText
  -- A parameter that starts with `this.`, perhaps behind a mark, binds with it.
  starts : ∀ mark rest, IsMark mark → b.text = mark ++ ("this.".toList ++ rest) →
    b.front = mark ++ "this.".toList
  named : b.name ≠ []
  name : ∀ c ∈ b.name, isNameChar c
  ended : ∀ c ∈ b.back.head?, isNameChar c = false
  sign : b.back.trimStart.head? ≠ some '='
  filled : ∀ expression ∈ b.expression?, expression ≠ []

/-- A parameter that is written as the pattern for it expects: at most a mark before
    `this`, a name of word characters, and a default value on one line. -/
structure IsPlain (b : Binding) : Prop where
  mark : ∃ mark, IsMark mark ∧ b.front = mark ++ "this.".toList
  name : ∀ c ∈ b.name, isWordChar c
  back : b.back.isBlankText
  oneLine : ∀ expression ∈ b.expression?, '\n' ∉ expression

variable {b : Binding}

theorem starts_of_mark {mark : Text} (isMark : IsMark mark)
    (front : b.front = mark ++ "this.".toList) (mark' rest : Text) (isMark' : IsMark mark')
    (same : b.text = mark' ++ ("this.".toList ++ rest)) : b.front = mark' ++ "this.".toList := by
  rw [text, front, List.append_assoc] at same
  have behind := FieldParam.withoutMark_append isMark' rest
  rw [← same, FieldParam.withoutMark_append isMark] at behind
  rw [behind] at same
  rw [front, List.append_cancel_right same]

theorem name_unique {a a' t t' : Text} (same : a ++ t = a' ++ t') (first : ∀ c ∈ a, isNameChar c)
    (second : ∀ c ∈ a', isNameChar c) (stop : ∀ c ∈ t.head?, isNameChar c = false)
    (stop' : ∀ c ∈ t'.head?, isNameChar c = false) : a = a' ∧ t = t' := by
  have taken : ∀ {a t : Text}, (∀ c ∈ a, isNameChar c) → (∀ c ∈ t.head?, isNameChar c = false) →
      (a ++ t).takeWhile isNameChar = a := by
    intro a t all stop
    rw [List.takeWhile_append_of_pos all]
    cases t with
    | nil => simp
    | cons c rest => rw [List.takeWhile_cons_of_neg (by simp [stop c rfl]), List.append_nil]
  have names : a = a' := by rw [← taken first stop, same, taken second stop']
  subst names
  exact ⟨rfl, List.append_cancel_left same⟩

theorem ended_value (ended : ∀ c ∈ b.back.head?, isNameChar c = false) :
    ∀ c ∈ (b.back ++ b.value).head?, isNameChar c = false := by
  cases back : b.back with
  | cons d rest =>
      rw [back] at ended
      exact ended
  | nil =>
      cases given : b.default? with
      | none => simp [value, given]
      | some e =>
          simp only [value, given, List.nil_append, Option.map_some, Option.getD_some,
            List.head?_cons, Option.mem_def, Option.some.injEq, forall_eq']
          decide

/-- What stands behind the name is a tail just when it is blank up to the default value,
    which stands on one line. -/
theorem isTail_iff (sign : b.back.trimStart.head? ≠ some '=')
    (filled : ∀ expression ∈ b.expression?, expression ≠ []) {default? : Option Text} :
    IsTail (b.back ++ b.value) default? ↔
      b.back.isBlankText ∧ (∀ expression ∈ b.expression?, '\n' ∉ expression) ∧
        default? = b.expression? := by
  obtain ⟨front, name, back, given⟩ := b
  dsimp only [value, expression?] at *
  obtain ⟨blanks, blank, split⟩ := Text.trimStart_split back
  constructor
  · intro isTail
    have start := isTail.trimStart
    cases rest : back.trimStart with
    | cons c more =>
        rw [rest] at sign split
        have solid := Text.isBlank_head_trimStart
          (rest ▸ List.dropWhile_idempotent isBlank back : Text.trimStart (c :: more) = c :: more)
        rw [split, List.append_assoc, Text.trimStart_append_of_blank blank, List.cons_append,
          Text.trimStart_cons solid] at start
        rcases start with ⟨none, -⟩ | ⟨value, expression, equals, -⟩
        · cases none
        · cases equals
          exact absurd rfl sign
    | nil =>
        rw [rest, List.append_nil] at split
        subst split
        rw [Text.trimStart_append_of_blank blank] at start
        cases given with
        | none =>
            rcases start with ⟨-, rfl⟩ | ⟨value, expression, equals, -⟩
            · exact ⟨blank, by simp, rfl⟩
            · cases equals
        | some e =>
            have equals : Text.trimStart ('=' :: e) = '=' :: e := Text.trimStart_cons (by decide) e
            rw [Option.map_some, Option.getD_some, equals] at start
            rcases start with ⟨none, -⟩ | ⟨value, expression, same, rfl, rfl, oneLine⟩
            · cases none
            · cases same
              exact ⟨blank, by simpa using oneLine, rfl⟩
  · rintro ⟨blank, oneLine, rfl⟩
    cases given with
    | none =>
        rw [Option.map_none, Option.getD_none, List.append_nil]
        exact .bare blank
    | some e =>
        obtain ⟨after, right, split⟩ := Text.trimStart_split e
        have tail : IsTail (back ++ '=' :: (after ++ e.trimStart)) (some e.trimStart) :=
          .value blank right (filled _ rfl) (List.dropWhile_idempotent isBlank e) (oneLine _ rfl)
        rw [← split] at tail
        exact tail

theorem ofText?_iff (formed : b.IsFormed) {read : FieldParam} :
    FieldParam.ofText? b.text = some read ↔ b.IsPlain ∧ read = ⟨b.name, b.expression?⟩ := by
  obtain ⟨field, default?⟩ := read
  rw [FieldParam.ofText?_eq_some]
  constructor
  · rintro ⟨mark, tail, isMark, same, some, word, isTail⟩
    have front := formed.starts mark _ isMark same
    rw [text, front, List.append_assoc] at same
    have behind := List.append_cancel_left (List.append_cancel_left same)
    obtain ⟨rfl, rfl⟩ :=
      name_unique behind formed.name (fun c inside => isNameChar_of_isWordChar (word c inside))
      (ended_value formed.ended) isTail.ended
    obtain ⟨blank, oneLine, rfl⟩ := (isTail_iff formed.sign formed.filled).mp isTail
    exact ⟨⟨⟨mark, isMark, front⟩, word, blank, oneLine⟩, rfl⟩
  · rintro ⟨⟨⟨mark, isMark, front⟩, word, blank, oneLine⟩, same⟩
    obtain ⟨rfl, rfl⟩ := FieldParam.mk.inj same
    refine ⟨mark, b.back ++ b.value, isMark, ?_, formed.named, word, ?_⟩
    · rw [text, front, List.append_assoc]
    · exact (isTail_iff formed.sign formed.filled).mpr ⟨blank, oneLine, rfl⟩

/-! ## Parameters that are written -/

/-- The parameter that is written for a field. -/
def ofForm (name : Text) (form : ParamForm) : Binding where
  front := form.front
  name := name
  back := Text.when form.default?.isSome " "
  default? := form.default?.map (' ' :: ·)

@[simp] theorem text_ofForm (name : Text) (form : ParamForm) :
    (ofForm name form).text = form.text name := by
  cases form <;> simp [ofForm, text, value, ParamForm.text_eq, ParamForm.back,
    ParamForm.default?, Text.when]

section OfForm

variable {name : Text} {form : ParamForm} (sound : form.IsSound)

include sound

theorem expression?_ofForm : (ofForm name form).expression? = form.default? := by
  rw [expression?, ofForm, Option.map_map]
  cases given : form.default? with
  | none => rfl
  | some e =>
      have expressed := sound e given
      obtain ⟨c, rest, rfl⟩ := List.exists_cons_of_ne_nil expressed.filled
      exact congrArg some
        (Text.trimStart_cons (Text.first_of_trimmed expressed.trimmed c rest rfl) rest)

theorem isFormed_ofForm (filled : name ≠ []) (named : ∀ c ∈ name, isNameChar c) :
    (ofForm name form).IsFormed := by
  obtain ⟨mark, isMark, front⟩ := form.exists_mark
  have gap : (ofForm name form).back = [] ∨ (ofForm name form).back = [' '] := by
    cases form <;> simp [ofForm, ParamForm.default?, Text.when]
  refine ⟨⟨mark, [], [], front, rfl, rfl⟩, starts_of_mark isMark front, filled, named, ?_, ?_, ?_⟩
  · rcases gap with none | blank
    · simp [none]
    · rw [blank]
      rintro c ⟨⟩
      decide
  · rcases gap with none | blank
    · rw [none]
      decide
    · rw [blank]
      decide
  · intro expression given
    rw [expression?_ofForm sound] at given
    exact (sound expression given).filled

end OfForm

end Binding

/-! ## Comments -/

/-- Whether a text runs into a comment, so that what is put behind it is lost. -/
def opensComment (t : Text) : Bool :=
  (Line.blankStrings t.lastLine).has "//"

section Comment

open FieldParam (isSoft isSoft_of_isNameChar)

theorem isQuote_of_isSoft {c : Char} (soft : isSoft c) : Line.isQuote c = false := by
  have first := FieldParam.ne_of_isSoft soft (show isSoft '\'' = false by decide)
  have second := FieldParam.ne_of_isSoft soft (show isSoft '"' = false by decide)
  simp [Line.isQuote, first, second]

theorem opensComment_append {before expression : Text} (soft : ∀ c ∈ before, isSoft c)
    (oneLine : '\n' ∉ expression) :
    opensComment (before ++ expression) = (Line.blankStrings expression).has "//" := by
  have inside : ∀ c ∈ before.lastLine, isSoft c :=
    fun c member => soft c (Text.lastLine_subset before c member)
  have noSlash : '/' ∉ before.lastLine :=
    fun member => FieldParam.ne_of_isSoft (inside _ member) (by decide) rfl
  rw [opensComment, Text.lastLine_append oneLine,
    Line.blankStrings_append fun c member => isQuote_of_isSoft (inside c member), Bool.eq_iff_iff,
    Text.has_iff_infix, Text.has_iff_infix]
  exact Text.infix_append_iff noSlash

theorem Binding.opensComment_of_isPlain {b : Binding} (plain : b.IsPlain)
    (closed : opensComment b.text = false) :
    ∀ expression ∈ b.expression?, (Line.blankStrings expression).has "//" = false := by
  obtain ⟨⟨mark, isMark, front⟩, word, blank, oneLine⟩ := plain
  obtain ⟨_, name, back, given⟩ := b
  dsimp only at front
  subst front
  cases given with
  | none => rintro expression ⟨⟩
  | some e =>
      rintro expression ⟨⟩
      obtain ⟨after, right, split⟩ := Text.trimStart_split e
      have shape : Binding.text ⟨mark ++ "this.".toList, name, back, some e⟩ =
          (mark ++ "this.".toList ++ name ++ back ++ "=".toList ++ after) ++ e.trimStart := by
        have parts : Binding.text ⟨mark ++ "this.".toList, name, back, some e⟩ =
            mark ++ "this.".toList ++ (name ++ (back ++ ('=' :: e))) := rfl
        rw [parts]
        conv_lhs => rw [split]
        simp
      rwa [shape,
        opensComment_append (FieldParam.soft_before isMark word blank right)
          (oneLine _ rfl)] at closed

theorem ParamForm.opensComment_text {form : ParamForm} {name : Text}
    (named : ∀ c ∈ name, isNameChar c) (sound : form.IsSound)
    (closed : ∀ expression ∈ form.default?, (Line.blankStrings expression).has "//" = false) :
    opensComment (form.text name) = false := by
  obtain ⟨lead, split, soft⟩ := @ParamForm.text_split form name named
  rw [split]
  cases given : form.default? with
  | none =>
      rw [Option.getD_none, opensComment_append (fun c member => (soft c member).2) (by simp)]
      decide +kernel
  | some expression =>
      rw [Option.getD_some,
        opensComment_append (fun c member => (soft c member).2) (sound expression given).oneLine]
      exact closed expression given

end Comment

/-! ## Parameters -/

inductive Param where
  /-- One that binds a field. -/
  | binds (b : Binding)
  | other (text : Text)
  deriving Repr, DecidableEq

namespace Param

def text : Param → Text
  | .binds b => b.text
  | .other text => text

def binding? : Param → Option Binding
  | .binds b => some b
  | .other _ => none

def other? : Param → Option Text
  | .binds _ => none
  | .other text => some text

def IsOwn : Param → Prop
  | .binds b => b.IsFormed
  | .other text => ∀ mark rest, IsMark mark → text ≠ mark ++ ("this.".toList ++ rest)

/-- A parameter that can stand in a list and is what it is taken for. -/
structure IsFormed (p : Param) : Prop extends IsParam p.text where
  closed : opensComment p.text = false
  own : p.IsOwn

theorem ofText?_other {text : Text} (own : (other text).IsOwn) :
    FieldParam.ofText? text = none := by
  rw [Option.eq_none_iff_forall_ne_some]
  rintro ⟨field, default?⟩ read
  obtain ⟨mark, tail, isMark, same, -⟩ := FieldParam.ofText?_eq_some.mp read
  exact own mark _ isMark same

/-- The parameter that is written for a field. -/
def ofForm (form : Text × ParamForm) : Param :=
  .binds (.ofForm form.1 form.2)

theorem isFormed_ofForm {name : Text} {form : ParamForm} (sound : form.IsSound) (filled : name ≠ [])
    (named : ∀ c ∈ name, isNameChar c)
    (closed : ∀ expression ∈ form.default?, (Line.blankStrings expression).has "//" = false) :
    (ofForm (name, form)).IsFormed := by
  have same : (ofForm (name, form)).text = form.text name := Binding.text_ofForm name form
  refine ⟨?_, ?_, Binding.isFormed_ofForm sound filled named⟩
  · rw [same]
    exact ParamForm.isParam_text sound filled named
  · rw [same]
    exact ParamForm.opensComment_text named sound closed

theorem isFormed_key : (other "Key? key".toList).IsFormed := by
  refine ⟨⟨⟨by decide, by decide, by decide⟩, by decide⟩, by decide +kernel, ?_⟩
  intro mark rest isMark same
  have behind := FieldParam.withoutMark_append isMark rest
  rw [← same] at behind
  cases behind

end Param

end Dart

end ValueClass
