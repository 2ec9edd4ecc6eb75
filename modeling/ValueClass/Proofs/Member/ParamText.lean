import ValueClass.Member.Constructor
import ValueClass.Proofs.Fresh.Names
import ValueClass.Proofs.Dart.HeaderLine

/-! # Parameters as text

The parameters that a new constructor takes are read back as they are written:
brackets and commas inside a default value are left alone, and the field and its
default value come back.
-/

namespace ValueClass

/-! ## Balanced brackets -/

namespace Dart.CtorParts

/-- Text that closes no bracket but its own, as long as one is open before it. -/
def Balanced : Nat → Text → Nat → Prop
  | depth, [], behind => depth = behind
  | depth, c :: rest, behind =>
    if opens c then Balanced (depth + 1) rest behind
    else if closes c then 2 ≤ depth ∧ Balanced (depth - 1) rest behind
    else Balanced depth rest behind

instance decidableBalanced : (depth : Nat) → (t : Text) → (behind : Nat) →
    Decidable (Balanced depth t behind)
  | depth, [], behind => inferInstanceAs (Decidable (depth = behind))
  | depth, c :: rest, behind =>
    have := decidableBalanced (depth + 1) rest behind
    have := decidableBalanced (depth - 1) rest behind
    have := decidableBalanced depth rest behind
    inferInstanceAs (Decidable (if opens c then Balanced (depth + 1) rest behind
      else if closes c then 2 ≤ depth ∧ Balanced (depth - 1) rest behind
      else Balanced depth rest behind))

theorem Balanced.append {depth between behind : Nat} {a b : Text} (first : Balanced depth a between)
    (second : Balanced between b behind) : Balanced depth (a ++ b) behind := by
  induction a generalizing depth with
  | nil =>
      rw [Balanced] at first
      rwa [first]
  | cons c rest ih =>
      simp only [List.cons_append, Balanced] at first ⊢
      split_ifs at first ⊢
      · exact ih first
      · exact ⟨first.1, ih first.2⟩
      · exact ih first

theorem balanced_of_forall {t : Text} (h : ∀ c ∈ t, opens c = false ∧ closes c = false)
    (depth : Nat) :
    Balanced depth t depth := by
  induction t with
  | nil => rfl
  | cons c rest ih =>
      obtain ⟨noOpen, noClose⟩ := h c (by simp)
      rw [Balanced, noOpen, noClose]
      exact ih fun d member => h d (by simp [member])

theorem balanced_of_blank {t : Text} (blank : t.isBlankText) (depth : Nat) :
    Balanced depth t depth := by
  apply balanced_of_forall
  intro d member
  have solid : ∀ e : Char, isBlank e = false → (d == e) = false := fun e h =>
    beq_false_of_ne (ne_of_isBlank (List.all_eq_true.mp blank d member) h)
  simp [opens, closes, solid '(' (by decide), solid '[' (by decide), solid '\x7b' (by decide),
    solid ')' (by decide), solid ']' (by decide), solid '\x7d' (by decide)]

/-- Balanced text stays in front of the bracket that is looked for. -/
theorem cutAtClose_append {depth behind : Nat} {a : Text} (balanced : Balanced depth a behind)
    (rest : Text) :
    cutAtClose depth (a ++ rest) = (cutAtClose behind rest).map fun (inner, after) =>
      (a ++ inner, after) := by
  induction a generalizing depth with
  | nil =>
      rw [Balanced] at balanced
      rw [balanced]
      simp
  | cons c tail ih =>
      simp only [Balanced] at balanced
      simp only [List.cons_append, cutAtClose]
      split at balanced
      · rename_i opening
        rw [if_pos opening, ih balanced, Option.map_map]
        rfl
      · rename_i noOpen
        rw [if_neg noOpen]
        split at balanced
        · rename_i closing
          rw [if_pos closing, if_neg (by omega), ih balanced.2, Option.map_map]
          rfl
        · rename_i noClose
          rw [if_neg noClose, ih balanced, Option.map_map]
          rfl

end Dart.CtorParts

/-! ## Text that opens nothing -/

namespace Dart.Line

/-- Text with as many brackets closed as opened, string literals apart or not. -/
structure Level (t : Text) : Prop extends Weighs 0 t where
  parens : Line.parens (blankStrings t) = 0

theorem Level.append {a b : Text} (first : Level a) (second : Level b) : Level (a ++ b) := by
  refine ⟨first.toWeighs.append second.toWeighs, ?_⟩
  rw [first.closed, parens_append, first.parens, second.parens]
  rfl

theorem level_of_unquoted {t : Text} (unquoted : ∀ c ∈ t, isQuote c = false)
    (braces : Line.braces t = 0) (parens : Line.parens t = 0) : Level t := by
  refine ⟨?_, ?_⟩
  · rw [← braces]
    exact weighs_of_unquoted unquoted
  · rw [blankStrings_eq_self unquoted, parens]

theorem level_literal : Level "''".toList := by
  refine ⟨(snippet_literal (s := []) rfl).toWeighs, ?_⟩
  have blank := blankStrings_literal (s := []) (by simp) []
  rw [blankStrings_nil] at blank
  rw [show "''".toList = '\'' :: ([] ++ '\'' :: []) from rfl, blank]
  decide

end Dart.Line

/-! ## Forms -/

namespace Dart.ParamForm

open Line CtorParts

/-- The default values that a style gives to parameters. -/
def defaults : List Text :=
  ["''", "0", "0.0", "false", "Object()", "const []", "const \x7b\x7d"]

/-- A form that a style chooses for a field without a default value of its own. -/
def IsNew : ParamForm → Prop
  | .withDefault expression => expression ∈ defaults
  | _ => True

theorem defaultValue_mem {type : TypeExpr} (known : type.text ≠ "dynamic")
    (simple : type.isPrimitive ∨ type.isCollection) : type.defaultValue ∈ defaults := by
  cases type with
  | list => exact (by decide : "const []".toList ∈ defaults)
  | map | set => exact (by decide : "const \x7b\x7d".toList ∈ defaults)
  | scalar text nullable =>
      rcases simple with simple | simple
      · rw [TypeExpr.isPrimitive, List.contains_iff_mem] at simple
        have each : ∀ name ∈ TypeExpr.primitiveNames, name ≠ "dynamic".toList →
            TypeExpr.scalarDefault name ∈ defaults := by decide
        exact each text simple known
      · cases simple

theorem choose_none (style : Style) (f : Field) : choose style true f none =
    if f.isNullable then .bare
    else if style.constructorDefaults && f.type.text != "dynamic".toList &&
        (f.type.isPrimitive || f.isCollection) then .withDefault f.type.defaultValue
    else match style.requiredMark with
      | .keyword => .required
      | .annotated => .annotated
      | .unmarked => .bare := rfl

theorem isNew_choose (style : Style) (f : Field) : (choose style true f none).IsNew := by
  rw [choose_none]
  split
  · trivial
  · split
    · rename_i simple
      simp only [Bool.and_eq_true, Bool.or_eq_true, bne_iff_ne] at simple
      exact defaultValue_mem simple.1.2 simple.2
    · cases style.requiredMark <;> trivial

def front : ParamForm → Text
  | .withDefault _ => "this."
  | .bare => "this."
  | .required => "required this."
  | .annotated => "@required this."

def fronts : List Text := ["this.", "required this.", "@required this."]

theorem front_mem (form : ParamForm) : form.front ∈ fronts := by
  cases form with
  | withDefault | bare => exact List.mem_cons_self
  | required => exact List.mem_cons_of_mem _ List.mem_cons_self
  | annotated => exact List.mem_cons_of_mem _ (List.mem_cons_of_mem _ List.mem_cons_self)

def back : ParamForm → Text
  | .withDefault expression => " = " ++ expression
  | _ => []

def default? : ParamForm → Option Text
  | .withDefault expression => some expression
  | _ => none

theorem text_eq (form : ParamForm) (name : Text) :
    form.text name = form.front ++ (name ++ form.back) := by
  cases form with
  | withDefault expression =>
      show "this.".toList ++ name ++ " = ".toList ++ expression = _
      simp only [List.append_assoc]
      rfl
  | bare | required | annotated =>
      show _ ++ name = _ ++ (name ++ [])
      rw [List.append_nil]
      rfl

theorem brackets_of_isPlain {c : Char} (plain : Text.isPlain c) :
    bracketStep c = 0 ∧ opens c = false ∧ closes c = false := by
  have other : ∀ d, Text.isPlain d = false → (c == d) = false := by
    intro d foreign
    simpa using Text.ne_of_isPlain plain foreign
  unfold bracketStep opens closes
  rw [other '<' (by decide), other '(' (by decide), other '[' (by decide), other '\x7b' (by decide),
    other '>' (by decide), other ')' (by decide), other ']' (by decide), other '\x7d' (by decide)]
  exact ⟨rfl, rfl, rfl⟩

section Text

variable {form : ParamForm} {name : Text} (isNew : form.IsNew)
  (identifier : Fresh.IsIdentifier name)

theorem withoutMark_text :
    FieldParam.withoutMark (form.text name) = "this.".toList ++ (name ++ form.back) := by
  rw [text_eq]
  cases form <;> rfl

include isNew in
theorem forall_back {P : Text → Prop} (nil : P [])
    (each : ∀ expression ∈ defaults, P (" = ".toList ++ expression)) :
    P form.back := by
  cases form with
  | withDefault expression => exact each expression isNew
  | bare | required | annotated => exact nil

include isNew identifier in
/-- The parameter of a field is read back. -/
theorem ofText?_text : FieldParam.ofText? (form.text name) = some ⟨name, form.default?⟩ := by
  have bound : Text.dropStart? "this.".toList ("this.".toList ++ (name ++ form.back)) =
      some (name ++ form.back) := rfl
  have field : (name ++ form.back).takeWhile isWordChar = name := by
    have stop : form.back.takeWhile isWordChar = [] :=
      forall_back (P := fun back => back.takeWhile isWordChar = []) isNew rfl (by decide)
    rw [List.takeWhile_append_of_pos identifier.wordChars, stop, List.append_nil]
  have nonempty : name.isEmpty = false := by simpa using identifier.ne_nil
  rw [FieldParam.ofText?, withoutMark_text, bound]
  dsimp only
  rw [field, nonempty, List.drop_left]
  cases form with
  | withDefault expression =>
      have closed : ∀ e ∈ defaults, Text.trimStart (' ' :: e) = e ∧ e ≠ [] ∧
          e.contains '\n' = false := by decide
      obtain ⟨trimmed, filled, noFeed⟩ := closed expression isNew
      have sign : Text.trimStart (back (.withDefault expression)) = '=' :: ' ' :: expression := rfl
      rw [sign]
      simp only [Bool.false_eq_true, ↓reduceIte]
      rw [trimmed]
      cases expression with
      | nil => exact absurd rfl filled
      | cons first rest =>
          dsimp only
          rw [noFeed]
          rfl
  | bare | required | annotated => rfl

include isNew identifier in
theorem passes_text : Text.Passes bracketStep (· == ',') 0 (form.text name) 0 := by
  have front : Text.Passes bracketStep (· == ',') 0 form.front 0 :=
    (by decide : ∀ front ∈ fronts, Text.Passes bracketStep (· == ',') 0 front 0) _ form.front_mem
  have inner : Text.Passes bracketStep (· == ',') 0 name 0 := by
    apply Text.passes_of_forall
    intro c member
    have plain := identifier.plain c member
    exact ⟨(brackets_of_isPlain plain).1, by simpa using Text.ne_of_isPlain plain (by decide)⟩
  have back : Text.Passes bracketStep (· == ',') 0 form.back 0 :=
    forall_back (P := fun back => Text.Passes bracketStep (· == ',') 0 back 0) isNew rfl (by decide)
  rw [text_eq]
  exact front.append (inner.append back)

include isNew identifier in
theorem balanced_text : Balanced 2 (form.text name) 2 := by
  have front : Balanced 2 form.front 2 :=
    (by decide : ∀ front ∈ fronts, Balanced 2 front 2) _ form.front_mem
  have inner : Balanced 2 name 2 :=
    balanced_of_forall (fun c member => (brackets_of_isPlain (identifier.plain c member)).2) 2
  have back : Balanced 2 form.back 2 :=
    forall_back (P := fun back => Balanced 2 back 2) isNew rfl (by decide)
  rw [text_eq]
  exact front.append (inner.append back)

include isNew identifier in
/-- A parameter starts and ends with a character that is not blank. -/
theorem trim_text {before after : Text} (left : before.isBlankText) (right : after.isBlankText) :
    Text.trim (before ++ form.text name ++ after) = form.text name := by
  apply Text.trim_eq left right
  · intro c rest same
    have first : ∀ front ∈ fronts, ∃ d more, front = d :: more ∧ isBlank d = false := by
      intro front member
      simp only [fronts, List.mem_cons, List.not_mem_nil, or_false] at member
      rcases member with rfl | rfl | rfl <;> exact ⟨_, _, rfl, by decide⟩
    obtain ⟨d, more, begins, solid⟩ := first _ form.front_mem
    rw [text_eq, begins, List.cons_append, List.cons.injEq] at same
    rw [← same.1]
    exact solid
  · intro c rest same
    have last : c ∈ name ∨ isBlank c = false := by
      have ends : (form.text name).getLast? = some c := by rw [same, List.getLast?_concat]
      rw [text_eq, List.getLast?_append, List.getLast?_append] at ends
      have closed : form.back = [] ∨ ∃ d, form.back.getLast? = some d ∧ isBlank d = false := by
        refine forall_back (P := fun back => back = [] ∨ ∃ d, back.getLast? = some d ∧
          isBlank d = false) isNew
          (.inl rfl) ?_
        intro expression member
        simp only [defaults, List.mem_cons, List.not_mem_nil, or_false] at member
        rcases member with rfl | rfl | rfl | rfl | rfl | rfl | rfl <;>
          exact .inr ⟨_, rfl, by decide⟩
      rcases closed with none | ⟨d, final, solid⟩
      · left
        obtain ⟨d, inner⟩ :=
          Option.isSome_iff_exists.mp (List.getLast?_isSome.mpr identifier.ne_nil)
        rw [none, inner] at ends
        have : d = c := by simpa using ends
        rw [← this]
        exact List.mem_of_getLast? inner
      · right
        rw [final] at ends
        have : d = c := by simpa using ends
        rw [← this]
        exact solid
    rcases last with member | solid
    · exact identifier.solid c member
    · exact solid

include isNew identifier in
theorem notMem_text {d : Char} (strange : d ∈ ['\n', '/']) : d ∉ form.text name := by
  have front : ∀ d ∈ ['\n', '/'], ∀ front ∈ fronts, d ∉ front := by decide
  have back : ∀ d ∈ ['\n', '/'], d ∉ [] ∧ ∀ expression ∈ defaults,
      d ∉ " = ".toList ++ expression := by decide
  have plain : ∀ d ∈ ['\n', '/'], Text.isPlain d = false := by decide
  rw [text_eq, List.mem_append, List.mem_append, not_or, not_or]
  refine ⟨front d strange _ form.front_mem, identifier.notMem (plain d strange), ?_⟩
  exact forall_back (P := fun back => d ∉ back) isNew (back d strange).1 (back d strange).2

include isNew identifier in
/-- The words of a parameter are those of its form, and its name. -/
theorem class_notMem_words (other : name ≠ "class") : "class".toList ∉ (form.text name).words := by
  have front : ∀ front ∈ fronts, ∃ lead, front = lead ++ ['.'] ∧
      "class".toList ∉ Text.words lead := by
    intro front member
    simp only [fronts, List.mem_cons, List.not_mem_nil, or_false] at member
    rcases member with rfl | rfl | rfl
    · exact ⟨"this".toList, rfl, by decide⟩
    · exact ⟨"required this".toList, by decide, by decide +kernel⟩
    · exact ⟨"@required this".toList, by decide, by decide +kernel⟩
  have back : "class".toList ∉ Text.words (name ++ form.back) := by
    refine forall_back (P := fun back => "class".toList ∉ Text.words (name ++ back)) isNew ?_ ?_
    · rw [List.append_nil, identifier.words, List.mem_singleton]
      exact fun same => other same.symm
    · intro expression member
      have closed : ∀ e ∈ defaults, "class".toList ∉ Text.words ("= ".toList ++ e) := by
        decide +kernel
      have whole : " = ".toList ++ expression = ' ' :: ("= ".toList ++ expression) := rfl
      rw [whole, Text.words_append (by decide), identifier.words, List.mem_append,
        List.mem_singleton, not_or]
      exact ⟨fun same => other same.symm, closed expression member⟩
  obtain ⟨lead, same, none⟩ := front _ form.front_mem
  rw [text_eq, same, List.append_assoc, List.singleton_append, Text.words_append (by decide),
    List.mem_append, not_or]
  exact ⟨none, back⟩

include isNew identifier in
theorem level_text : Level (form.text name) := by
  have front : Level form.front := by
    obtain ⟨unquoted, braces, parens⟩ := (by decide : ∀ front ∈ fronts,
      (∀ c ∈ front, isQuote c = false) ∧ Line.braces front = 0 ∧ Line.parens front = 0) _
        form.front_mem
    exact level_of_unquoted unquoted braces parens
  have inner : Level name := by
    refine ⟨(snippet_light identifier.light).toWeighs, ?_⟩
    rw [blankStrings_eq_self (unquoted_of_light identifier.light)]
    apply parens_eq_zero
    intro c member
    have plain := identifier.plain c member
    exact ⟨Text.ne_of_isPlain plain (by decide), Text.ne_of_isPlain plain (by decide)⟩
  have back : Level form.back := by
    refine forall_back (P := Level) isNew (level_of_unquoted (by simp) rfl rfl) ?_
    intro expression member
    have sign : Level " = ".toList := level_of_unquoted (by decide) (by decide) (by decide)
    have closed : ∀ e ∈ defaults, e = "''".toList ∨
        (∀ c ∈ e, isQuote c = false) ∧ Line.braces e = 0 ∧ Line.parens e = 0 := by decide
    rcases closed expression member with rfl | ⟨unquoted, braces, parens⟩
    · exact sign.append level_literal
    · exact sign.append (level_of_unquoted unquoted braces parens)
  rw [text_eq]
  exact front.append (inner.append back)

end Text

end Dart.ParamForm

end ValueClass
