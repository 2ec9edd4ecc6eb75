import ValueClass.Proofs.Member.Nested

/-! # Parameters that bind a field

A parameter is read to bind a field when nothing but a mark stands before `this`, the
name is one word, and nothing but a default value on one line stands behind it. What is
written for a field has that form, and reads back as what was chosen.
-/

namespace ValueClass.Dart

namespace FieldParam

/-! ## Reading -/

/-- What can stand before `this`: nothing, or a mark with blanks behind it. -/
inductive IsMark : Text → Prop
  /-- The parameter has no mark. -/
  | unmarked : IsMark []
  /-- The keyword, or the annotation of that name. -/
  | required {sign blanks : Text} : sign = [] ∨ sign = "@".toList → blanks ≠ [] →
    blanks.isBlankText →
      IsMark (sign ++ "required".toList ++ blanks)

/-- What can stand behind the name, and the default value in it. -/
inductive IsTail : Text → Option Text → Prop
  /-- There is no default value. -/
  | bare {blanks : Text} : blanks.isBlankText → IsTail blanks none
  /-- A default value on one line. -/
  | value {before after expression : Text} : before.isBlankText → after.isBlankText →
    expression ≠ [] →
      expression.trimStart = expression → '\n' ∉ expression →
      IsTail (before ++ '=' :: (after ++ expression)) (some expression)

theorem exists_mark (param : Text) : ∃ mark, IsMark mark ∧ param = mark ++ withoutMark param := by
  obtain ⟨sign, signs, same⟩ : ∃ sign : Text, (sign = [] ∨ sign = "@".toList) ∧
      param = sign ++ (Text.dropStart? "@" param).getD param := by
    cases found : Text.dropStart? "@".toList param with
    | none => exact ⟨[], .inl rfl, rfl⟩
    | some rest => exact ⟨"@", .inr rfl, Text.dropStart?_eq_some.mp found⟩
  rw [withoutMark]
  generalize (Text.dropStart? "@".toList param).getD param = word at same
  split
  · rename_i c rest marked
    split
    · rename_i blank
      obtain ⟨blanks, spaces, split⟩ := Text.trimStart_split rest
      refine ⟨sign ++ "required".toList ++ (c :: blanks), .required signs (by simp) ?_, ?_⟩
      · rw [Text.isBlankText, List.all_cons, blank]
        exact spaces
      · rw [same, Text.dropStart?_eq_some.mp marked]
        conv_lhs => rw [split]
        simp
    · exact ⟨[], .unmarked, rfl⟩
  · exact ⟨[], .unmarked, rfl⟩

theorem withoutMark_append {mark : Text} (isMark : IsMark mark) (rest : Text) :
    withoutMark (mark ++ ("this.".toList ++ rest)) = "this.".toList ++ rest := by
  cases isMark with
  | unmarked => rfl
  | @required sign blanks signs some blank =>
      obtain ⟨c, more, rfl⟩ := List.exists_cons_of_ne_nil some
      rw [Text.isBlankText, List.all_cons, Bool.and_eq_true] at blank
      have shape : sign ++ "required".toList ++ c :: more ++ ("this.".toList ++ rest) =
          sign ++ ("required".toList ++ c :: (more ++ ("this.".toList ++ rest))) := by simp
      have word : (Text.dropStart? "@".toList
        (sign ++ ("required".toList ++ c :: (more ++ ("this.".toList ++ rest))))).getD
          (sign ++ ("required".toList ++ c :: (more ++ ("this.".toList ++ rest)))) =
            "required".toList ++ c :: (more ++ ("this.".toList ++ rest)) := by
        rcases signs with rfl | rfl
        · rfl
        · rw [Text.dropStart?_eq_some.mpr rfl, Option.getD_some]
      rw [shape, withoutMark, word, Text.dropStart?_eq_some.mpr rfl]
      dsimp only
      rw [if_pos blank.1, Text.trimStart_append_of_blank blank.2]
      rfl

/-- What is read behind the name: the default value, if there is one. -/
def readTail (tail : Text) : Option (Option Text) :=
  match tail.trimStart with
  | [] => some none
  | '=' :: value =>
    match Text.trimStart value with
    | [] => none
    | expression => if expression.contains '\n' then none else some (some expression)
  | _ => none

theorem isTail_of_readTail {tail : Text} {default? : Option Text}
    (read : readTail tail = some default?) :
    IsTail tail default? := by
  obtain ⟨before, left, behind⟩ := Text.trimStart_split tail
  rw [readTail] at read
  split at read
  · rename_i ends
    cases read
    rw [ends, List.append_nil] at behind
    exact .bare (behind ▸ left)
  · rename_i value ends
    rw [ends] at behind
    obtain ⟨after, right, expression⟩ := Text.trimStart_split value
    split at read
    · cases read
    · rename_i some
      split at read
      · cases read
      · rename_i whole
        cases read
        rw [expression] at behind
        rw [behind]
        exact .value left right some (List.dropWhile_idempotent isBlank value)
          (by simpa using whole)
  · cases read

theorem IsTail.readTail {tail : Text} {default? : Option Text} (h : IsTail tail default?) :
    readTail tail = some default? := by
  cases h with
  | bare blank =>
      have none := Text.trimStart_append_of_blank blank []
      rw [List.append_nil] at none
      rw [FieldParam.readTail, none]
      rfl
  | @value before after expression left right some trimmed whole =>
      have sign : Text.trimStart (before ++ '=' :: (after ++ expression)) =
          '=' :: (after ++ expression) := by
        rw [Text.trimStart_append_of_blank left, Text.trimStart_cons (by decide)]
      rw [FieldParam.readTail, sign]
      simp only [Text.trimStart_append_of_blank right, trimmed]
      cases expression with
      | nil => exact absurd rfl some
      | cons c rest =>
          show (if (c :: rest).contains '\n' then Option.none else _) = _
          rw [if_neg (by simpa using whole)]

theorem IsTail.takeWhile {tail : Text} {default? : Option Text} (h : IsTail tail default?) :
    tail.takeWhile isWordChar = [] := by
  have blanks : ∀ {blanks rest : Text}, blanks.isBlankText → rest.takeWhile isWordChar = [] →
      (blanks ++ rest).takeWhile isWordChar = [] := by
    intro blanks rest blank none
    cases blanks with
    | nil => exact none
    | cons c more =>
        rw [Text.isBlankText, List.all_cons, Bool.and_eq_true] at blank
        rw [List.cons_append, List.takeWhile_cons_of_neg (by simp [isWordChar_of_isBlank blank.1])]
  cases h with
  | bare blank =>
      have none := @blanks _ [] blank rfl
      rwa [List.append_nil] at none
  | value left _ _ _ _ => exact blanks left (List.takeWhile_cons_of_neg (by decide))

theorem ofText?_eq (param : Text) :
    ofText? param = (Text.dropStart? "this." (withoutMark param)).bind fun bound =>
      if (bound.takeWhile isWordChar).isEmpty then none
      else (readTail (bound.dropWhile isWordChar)).map
        (FieldParam.mk (bound.takeWhile isWordChar)) := by
  rw [ofText?]
  cases Text.dropStart? "this.".toList (withoutMark param) with
  | none => rfl
  | some bound =>
      have behind : bound.drop (bound.takeWhile isWordChar).length = bound.dropWhile isWordChar :=
        calc
        _ = (bound.takeWhile isWordChar ++ bound.dropWhile isWordChar).drop
          (bound.takeWhile isWordChar).length := by
          rw [List.takeWhile_append_dropWhile]
        _ = bound.dropWhile isWordChar := List.drop_left
      simp only [behind, Option.bind_some, FieldParam.readTail]
      split
      · rfl
      · -- both sides are the same cases of what stands behind the blanks
        generalize Text.trimStart (bound.dropWhile isWordChar) = tail
        grind

/-- Which parameters are read to bind a field, and what is read. -/
theorem ofText?_eq_some {param field : Text} {default? : Option Text} :
    ofText? param = some ⟨field, default?⟩ ↔
      ∃ mark tail, IsMark mark ∧ param = mark ++ ("this.".toList ++ (field ++ tail)) ∧ field ≠ [] ∧
        (∀ c ∈ field, isWordChar c) ∧ IsTail tail default? := by
  rw [ofText?_eq, Option.bind_eq_some_iff]
  constructor
  · rintro ⟨bound, front, read⟩
    rw [Text.dropStart?_eq_some] at front
    obtain ⟨mark, isMark, same⟩ := exists_mark param
    by_cases none : bound.takeWhile isWordChar = []
    · rw [if_pos (by simp [none])] at read
      cases read
    · rw [if_neg (by simpa using none), Option.map_eq_some_iff] at read
      obtain ⟨_, tail, same'⟩ := read
      cases same'
      refine ⟨mark, bound.dropWhile isWordChar, isMark, ?_, none,
        List.all_eq_true.mp List.all_takeWhile,
        isTail_of_readTail tail⟩
      rw [List.takeWhile_append_dropWhile, ← front]
      exact same
  · rintro ⟨mark, tail, isMark, rfl, filled, word, isTail⟩
    refine ⟨field ++ tail, ?_, ?_⟩
    · rw [withoutMark_append isMark, Text.dropStart?_eq_some]
    · have name : (field ++ tail).takeWhile isWordChar = field := by
        rw [List.takeWhile_append_of_pos word, isTail.takeWhile, List.append_nil]
      have behind : (field ++ tail).dropWhile isWordChar = tail := by
        have whole := @List.takeWhile_append_dropWhile _ isWordChar (field ++ tail)
        rw [name] at whole
        exact List.append_cancel_left whole
      rw [name, behind, if_neg (by simpa using filled), isTail.readTail]
      rfl

/-! ## Indented anew -/

open Text (Reindents)

theorem IsMark.reindents {mark mark' : Text} (h : Reindents mark mark') (isMark : IsMark mark) :
    IsMark mark' := by
  cases isMark with
  | unmarked =>
      cases h
      exact .unmarked
  | @required sign blanks signs some blank =>
      obtain ⟨front, blanks', rfl, same, behind⟩ := h.of_append
      have whole : '\n' ∉ sign ++ "required".toList := by rcases signs with rfl | rfl <;> decide
      rw [same.eq_of_notMem whole]
      exact .required signs (fun none => some (by subst none; exact behind.eq_nil))
        (behind.isBlankText blank)

theorem IsMark.of_reindents {mark mark' : Text} (h : Reindents mark mark') (isMark : IsMark mark') :
    IsMark mark := by
  cases isMark with
  | unmarked =>
      cases h
      exact .unmarked
  | @required sign blanks' signs some blank =>
      have whole : '\n' ∉ sign ++ "required".toList := by rcases signs with rfl | rfl <;> decide
      obtain ⟨blanks, rfl, behind⟩ := h.of_append_right whole
      refine .required signs ?_ (behind.isBlankText_of blank)
      rintro rfl
      cases behind
      exact some rfl

theorem IsTail.reindents {tail tail' : Text} {default? : Option Text} (h : Reindents tail tail')
    (isTail : IsTail tail default?) : IsTail tail' default? := by
  cases isTail with
  | bare blank => exact .bare (h.isBlankText blank)
  | @value before after expression left right some trimmed whole =>
      obtain ⟨before', rest, rfl, first, second⟩ := h.of_append
      obtain ⟨sign, rest', rfl, same, behind⟩ :=
        Reindents.of_append (a := ['=']) (b := after ++ expression) second
      obtain ⟨after', last, rfl, third, fourth⟩ := behind.of_append
      rw [same.eq_of_notMem (by decide), fourth.eq_of_notMem whole]
      exact .value (first.isBlankText left) (third.isBlankText right) some trimmed whole

theorem IsTail.of_reindents {tail tail' : Text} {default? : Option Text} (h : Reindents tail tail')
    (isTail : IsTail tail' default?) : IsTail tail default? := by
  cases isTail with
  | bare blank => exact .bare (h.isBlankText_of blank)
  | @value before' after' expression left right some trimmed whole =>
      obtain ⟨before, rest, rfl, first, second⟩ := h.of_append_cons_right (by decide)
      obtain ⟨rest', same, behind⟩ := @Reindents.of_append_right _ ['='] _ (by decide) second
      obtain ⟨-, rfl⟩ := List.cons.inj same
      obtain ⟨c, more, rfl⟩ := List.exists_cons_of_ne_nil some
      have solid : isBlank c = false := Text.isBlank_head_trimStart trimmed
      obtain ⟨after, more', rfl, third, fourth⟩ := behind.of_append_cons_right solid
      have oneLine := fourth.eq_of_notMem fun feed => whole (fourth.mem feed)
      rw [← oneLine]
      exact .value (first.isBlankText_of left) (third.isBlankText_of right) some trimmed whole

/-- The layout of a parameter does not change what is read of it. -/
theorem ofText?_reindents {param param' : Text} (h : Reindents param param') :
    ofText? param' = ofText? param := by
  have whole : ∀ field : Text, (∀ c ∈ field, isWordChar c) → '\n' ∉ "this.".toList ++ field := by
    intro field word feed
    rcases List.mem_append.mp feed with feed | feed
    · exact absurd feed (by decide)
    · exact absurd (word _ feed) (by decide)
  ext ⟨field, default?⟩
  rw [ofText?_eq_some, ofText?_eq_some]
  constructor
  · rintro ⟨mark', tail', isMark, rfl, filled, word, isTail⟩
    obtain ⟨mark, bound, rfl, first, second⟩ :=
      Reindents.of_append_cons_right (c := 't') (by decide) h
    have behind : Reindents ('t' :: bound) ("this.".toList ++ field ++ tail') := by
      rw [List.append_assoc]
      exact second
    obtain ⟨tail, same, last⟩ := behind.of_append_right (whole field word)
    exact ⟨mark, tail, isMark.of_reindents first, by rw [same, List.append_assoc], filled, word,
      isTail.of_reindents last⟩
  · rintro ⟨mark, tail, isMark, rfl, filled, word, isTail⟩
    rw [← List.append_assoc "this.".toList, ← List.append_assoc] at h
    obtain ⟨mark', tail', rfl, first, last⟩ := h.of_around (whole field word)
    exact ⟨mark', tail', isMark.reindents first, by simp, filled, word, isTail.reindents last⟩

/-! ## Default values -/

/-- A parameter, or a part of one: an item whose brackets are properly nested. -/
structure IsParam (param : Text) : Prop extends Text.IsItem param where
  nested : param.isNested

/-- A default value that can be written: it stands on one line. -/
structure IsExpression (expression : Text) : Prop extends IsParam expression where
  oneLine : '\n' ∉ expression

/-- Whether a character can stand in the name of a field. The dollar sign can, though it
    is no word character. -/
def isNameChar (c : Char) : Bool :=
  isWordChar c || c == '$'

theorem isNameChar_of_isWordChar {c : Char} (word : isWordChar c) : isNameChar c := by
  rw [isNameChar, word]
  rfl

theorem isBlank_of_isNameChar {c : Char} (word : isNameChar c) : isBlank c = false := by
  rw [isNameChar, Bool.or_eq_true, beq_iff_eq] at word
  rcases word with word | rfl
  · exact isBlank_of_isWordChar word
  · decide

/-- Whether a character can stand around the name of a field, up to its default value. -/
def isSoft (c : Char) : Bool :=
  isNameChar c || isBlank c || ['.', '=', '@'].contains c

theorem isSoft_of_isBlank {c : Char} (blank : isBlank c) : isSoft c := by
  simp [isSoft, blank]

theorem isSoft_of_isNameChar {c : Char} (word : isNameChar c) : isSoft c := by
  simp [isSoft, word]

theorem ne_of_isSoft {c d : Char} (soft : isSoft c) (foreign : isSoft d = false) : c ≠ d := by
  rintro rfl
  rw [soft] at foreign
  cases foreign

theorem plain_of_isSoft {c : Char} (soft : isSoft c) : bracketStep c = 0 ∧ (c == ',') = false := by
  have other : ∀ d, isSoft d = false → (c == d) = false := fun d foreign =>
    beq_eq_false_iff_ne.mpr (ne_of_isSoft soft foreign)
  unfold bracketStep
  rw [other '<' (by decide), other '(' (by decide), other '[' (by decide), other '\x7b' (by decide),
    other '>' (by decide), other ')' (by decide), other ']' (by decide), other '\x7d' (by decide),
    other ',' (by decide)]
  exact ⟨rfl, rfl⟩

theorem isSoft_of_mem {blanks : Text} (blank : blanks.isBlankText) : ∀ c ∈ blanks, isSoft c :=
  fun c member => isSoft_of_isBlank (List.all_eq_true.mp blank c member)

theorem IsMark.soft {mark : Text} (isMark : IsMark mark) : ∀ c ∈ mark, isSoft c := by
  cases isMark with
  | unmarked => simp
  | @required sign blanks signs _ blank =>
      have front : ∀ c ∈ sign ++ "required".toList, isSoft c := by
        rcases signs with rfl | rfl <;> decide
      intro c member
      rcases List.mem_append.mp member with member | member
      · exact front c member
      · exact isSoft_of_mem blank c member

theorem soft_before {mark name before after : Text} (isMark : IsMark mark)
    (word : ∀ c ∈ name, isWordChar c) (left : before.isBlankText) (right : after.isBlankText) :
    ∀ c ∈ mark ++ "this.".toList ++ name ++ before ++ "=".toList ++ after, isSoft c := by
  intro c member
  simp only [List.mem_append] at member
  rcases member with ((((member | member) | member) | member) | member) | member
  · exact isMark.soft c member
  · exact (by decide : ∀ c ∈ "this.".toList, isSoft c) c member
  · exact isSoft_of_isNameChar (isNameChar_of_isWordChar (word c member))
  · exact isSoft_of_mem left c member
  · exact (by decide : ∀ c ∈ "=".toList, isSoft c) c member
  · exact isSoft_of_mem right c member

/-- The default value of a parameter can be written. -/
theorem isExpression_of_ofText? {param field expression : Text} (isParam : IsParam param)
    (read : ofText? param = some ⟨field, some expression⟩) : IsExpression expression := by
  obtain ⟨mark, tail, isMark, rfl, -, word, isTail⟩ := ofText?_eq_some.mp read
  cases isTail with
  | @value before after _ left right some trimmed whole =>
      have shape : mark ++ ("this.".toList ++ (field ++ (before ++ '=' :: (after ++ expression)))) =
          (mark ++ "this.".toList ++ field ++ before ++ "=".toList ++ after) ++ expression := by
            simp
      have plain := fun c member => plain_of_isSoft (soft_before isMark word left right c member)
      rw [shape] at isParam
      refine ⟨⟨⟨some, ?_, ?_⟩, ?_⟩, whole⟩
      · refine Text.trim_eq_self ?_ ?_
        · rintro c rest rfl
          exact Text.isBlank_head_trimStart trimmed
        · rintro c start rfl
          exact Text.last_of_trimmed isParam.trimmed c _ (List.append_assoc _ start [c]).symm
      · obtain ⟨between, front, passed⟩ := isParam.whole.of_append
        rwa [front.unique (Text.passes_of_forall plain 0)] at passed
      · have nested := isParam.nested
        rwa [Text.isNested, Text.nestedFrom_append fun c member => (plain c member).1] at nested

end FieldParam

namespace ParamForm

/-! ## Forms -/

open FieldParam

def IsSound (form : ParamForm) : Prop :=
  ∀ expression ∈ form.default?, IsExpression expression

theorem isExpression_of_mem {expression : Text} (member : expression ∈ defaults) :
    IsExpression expression := by
  have each : ∀ e ∈ defaults, e ≠ [] ∧ Text.trim e = e ∧ Text.Passes bracketStep (· == ',') 0 e 0 ∧
      '\n' ∉ e ∧ Text.isNested e := by decide
  obtain ⟨filled, trimmed, whole, oneLine, nested⟩ := each expression member
  exact ⟨⟨⟨filled, trimmed, whole⟩, nested⟩, oneLine⟩

/-- The default value of the form that a style chooses is the old one or a new one. -/
theorem forall_choose {P : Text → Prop} (new : ∀ expression ∈ defaults, P expression)
    (style : Style) (named : Bool) (f : Field) {default? : Option Text}
    (old : ∀ expression ∈ default?, P expression) :
    ∀ expression ∈ (choose style named f default?).default?, P expression := by
  cases default? with
  | some expression => exact old
  | none =>
      intro expression given
      cases named with
      | true =>
          have isNew := isNew_choose style f
          cases form : choose style true f none with
          | withDefault e =>
              rw [form] at given isNew
              cases given
              exact new _ isNew
          | bare | required | annotated =>
              rw [form] at given
              cases given
      | false => cases given

theorem isSound_choose (style : Style) (named : Bool) (f : Field) {default? : Option Text}
    (old : ∀ expression ∈ default?, IsExpression expression) :
    (choose style named f default?).IsSound :=
  forall_choose (fun _ member => isExpression_of_mem member) style named f old

theorem choose_default? (style : Style) (named : Bool) (f : Field) (default? : Option Text) :
    choose style named f (choose style named f default?).default? =
      choose style named f default? := by
  cases default? with
  | some expression => rfl
  | none =>
      cases form : choose style named f none with
      | withDefault expression => rfl
      | bare | required | annotated => exact form

section Sound

variable {form : ParamForm} {name : Text} (sound : form.IsSound) (filled : name ≠ [])
  (word : ∀ c ∈ name, isNameChar c)

theorem isTail_back (sound : form.IsSound) : IsTail form.back form.default? := by
  cases form with
  | withDefault expression =>
      have expressed := sound expression rfl
      have trimmed : Text.trimStart expression = expression := by
        obtain ⟨c, rest, rfl⟩ := List.exists_cons_of_ne_nil expressed.filled
        exact Text.trimStart_cons (Text.first_of_trimmed expressed.trimmed c rest rfl) rest
      exact @IsTail.value " ".toList " ".toList _ rfl rfl expressed.filled trimmed expressed.oneLine
  | bare | required | annotated => exact .bare rfl

theorem exists_mark (form : ParamForm) :
    ∃ mark, IsMark mark ∧ form.front = mark ++ "this.".toList := by
  cases form with
  | withDefault | bare => exact ⟨[], .unmarked, rfl⟩
  | required => exact ⟨_, @IsMark.required [] " ".toList (.inl rfl) (by decide) rfl, by decide⟩
  | annotated => exact ⟨_,
      @IsMark.required "@".toList " ".toList (.inr rfl) (by decide) rfl, by decide⟩

theorem ofText?_of_sound (sound : form.IsSound) (filled : name ≠ [])
    (word : ∀ c ∈ name, isWordChar c) :
    ofText? (form.text name) = some ⟨name, form.default?⟩ := by
  rw [ofText?_eq_some]
  obtain ⟨mark, isMark, front⟩ := form.exists_mark
  exact ⟨mark, form.back, isMark, by rw [text_eq, front, List.append_assoc], filled, word,
    isTail_back sound⟩

theorem last_of_append {a b : Text} (some : b ≠ [])
    (solid : ∀ c start, b = start ++ [c] → isBlank c = false) :
    ∀ c start, a ++ b = start ++ [c] → isBlank c = false := by
  intro c start same
  rcases List.eq_nil_or_concat b with none | ⟨front, d, split⟩
  · exact absurd none some
  · rw [List.concat_eq_append] at split
    rw [split, ← List.append_assoc] at same
    obtain ⟨-, rfl⟩ := List.append_singleton_inj.mp same
    exact solid d front split

include word in
theorem text_split :
    ∃ lead, form.text name = lead ++ form.default?.getD [] ∧ ∀ c ∈ lead, c ≠ '\n' ∧ isSoft c := by
  obtain ⟨gap, gaps, back⟩ : ∃ gap ∈ [[], " = ".toList],
      form.back = gap ++ form.default?.getD [] := by
    cases form with
    | withDefault expression => exact ⟨" = ".toList, by simp, rfl⟩
    | bare | required | annotated => exact ⟨[], by simp, rfl⟩
  refine ⟨form.front ++ name ++ gap, by rw [text_eq, back]; simp, ?_⟩
  intro c member
  rw [List.mem_append, List.mem_append] at member
  rcases member with (member | member) | member
  · exact (by decide : ∀ front ∈ fronts, ∀ c ∈ front, c ≠ '\n' ∧ isSoft c) _ form.front_mem c member
  · refine ⟨?_, isSoft_of_isNameChar (word c member)⟩
    rintro rfl
    exact absurd (word _ member) (by decide)
  · exact (by decide : ∀ gap ∈ [[], " = ".toList], ∀ c ∈ gap, c ≠ '\n' ∧ isSoft c) _ gaps c member

include sound word

theorem oneLine_text : '\n' ∉ form.text name := by
  obtain ⟨lead, split, plain⟩ := @text_split form name word
  rw [split, List.mem_append, not_or]
  refine ⟨fun feed => (plain _ feed).1 rfl, ?_⟩
  cases given : form.default? with
  | none => simp
  | some expression => exact (sound expression given).oneLine

theorem isNested_text : (form.text name).isNested := by
  obtain ⟨lead, split, plain⟩ := @text_split form name word
  rw [split, Text.isNested,
    Text.nestedFrom_append fun c member => (plain_of_isSoft (plain c member).2).1]
  cases given : form.default? with
  | none => rfl
  | some expression => exact (sound expression given).nested

include filled

/-- The parameter of a field is one item of its list. -/
theorem isParam_text : IsParam (form.text name) := by
  have first : ∀ c rest, form.text name = c :: rest → isBlank c = false := by
    intro c rest same
    have begins : ∀ front ∈ fronts, ∃ d more, front = d :: more ∧ isBlank d = false := by
      intro front member
      simp only [fronts, List.mem_cons, List.not_mem_nil, or_false] at member
      rcases member with rfl | rfl | rfl <;> exact ⟨_, _, rfl, by decide⟩
    obtain ⟨d, more, begin, solid⟩ := begins _ form.front_mem
    rw [text_eq, begin, List.cons_append, List.cons.injEq] at same
    rw [← same.1]
    exact solid
  have last : ∀ c start, form.text name = start ++ [c] → isBlank c = false := by
    intro c start same
    have named : ∀ c start, name = start ++ [c] → isBlank c = false := by
      rintro c start rfl
      exact isBlank_of_isNameChar (word c (by simp))
    rw [text_eq] at same
    cases form with
    | withDefault expression =>
        have expressed := sound expression rfl
        rw [← List.append_assoc] at same
        exact last_of_append (by simp)
          (last_of_append expressed.filled (Text.last_of_trimmed expressed.trimmed)) c start same
    | bare | required | annotated =>
        rw [show back _ = [] from rfl, List.append_nil] at same
        exact last_of_append filled named c start same
  have passed : Text.Passes bracketStep (· == ',') 0 (form.text name) 0 := by
    obtain ⟨lead, split, plain⟩ := @text_split form name word
    have front : Text.Passes bracketStep (· == ',') 0 lead 0 :=
      Text.passes_of_forall (fun c member => plain_of_isSoft (plain c member).2) 0
    rw [split]
    cases given : form.default? with
    | none => simpa using front
    | some expression => exact front.append (sound expression given).whole
  exact ⟨⟨by rw [text_eq]; simp [filled], Text.trim_eq_self first last, passed⟩,
    isNested_text sound word⟩

end Sound

end ParamForm

end ValueClass.Dart
