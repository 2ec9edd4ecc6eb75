import ValueClass.Proofs.Fresh.Shape
import ValueClass.Proofs.Member.ParamText

/-! # The constructor of a fresh class

A new constructor takes every field by name, one on a line. Read back, it gives the
parameters as they were written, whatever forms they have.
-/

namespace ValueClass

theorem Text.unlines_cons_flatMap (first : Text) (ls : List Text) :
    Text.unlines (first :: ls) = first ++ ls.flatMap fun line => '\n' :: line := by
  induction ls generalizing first with
  | nil => simp [Text.unlines_singleton]
  | cons next rest ih => rw [Text.unlines_cons_cons, ih, List.flatMap_cons, List.cons_append]

theorem Text.cut?_blank {blanks sep rest : Text} {c : Char} (blank : blanks.isBlankText)
    (solid : isBlank c = false) :
    Text.cut? (c :: sep) (blanks ++ (c :: sep ++ rest)) = some (blanks, rest) := by
  induction blanks with
  | nil =>
      have starts : (c :: sep).isPrefixOf (c :: (sep ++ rest)) = true :=
        List.isPrefixOf_iff_prefix.mpr (List.prefix_append (c :: sep) rest)
      rw [List.nil_append, List.cons_append, Text.cut?, if_pos starts]
      have dropped : (c :: sep ++ rest).drop (c :: sep).length = rest := List.drop_left
      exact congrArg (fun t => some ([], t)) dropped
  | cons b more ih =>
      rw [Text.isBlankText, List.all_cons, Bool.and_eq_true] at blank
      have apart : (c :: sep).isPrefixOf (b :: (more ++ (c :: sep ++ rest))) = false := by
        rw [List.isPrefixOf_cons_cons, Bool.and_eq_false_iff]
        refine .inl ?_
        rw [beq_eq_false_iff_ne]
        rintro rfl
        rw [blank.1] at solid
        cases solid
      rw [List.cons_append, Text.cut?, apart, ih blank.2]
      rfl

namespace Fresh

open Dart Dart.Line Dart.CtorParts

/-! ## The text -/

/-- The forms of the parameters of a constructor, one for each field. -/
@[ext]
structure CtorForms where
  form : FieldText → ParamForm
  isNew : ∀ f, (form f).IsNew

def FieldText.param (forms : CtorForms) (f : FieldText) : Text :=
  (forms.form f).text f.name

/-- The forms that a style chooses, over a constructor that may be there: its default
    values stay. -/
def CtorForms.next (style : Style) (old : Option CtorForms) : CtorForms where
  form f := .choose style true (f.field 1) (old.bind fun forms => (forms.form f).default?)
  isNew f := by
    cases old with
    | none => exact ParamForm.isNew_choose style (f.field 1)
    | some forms =>
        have new := forms.isNew f
        rw [Option.bind_some]
        cases same : forms.form f with
        | withDefault expression =>
            rw [same] at new
            exact new
        | bare | required | annotated => exact ParamForm.isNew_choose style (f.field 1)

/-- The forms that a style chose once are chosen again. -/
theorem CtorForms.next_next (style : Style) (old : Option CtorForms) :
    CtorForms.next style (some (.next style old)) = .next style old := by
  have each : (CtorForms.next style (some (.next style old))).form =
      (CtorForms.next style old).form := by
    funext f
    show ParamForm.choose style true (f.field 1) ((CtorForms.next style old).form f).default? = _
    cases same : (CtorForms.next style old).form f with
    | withDefault expression => rfl
    | bare | required | annotated =>
        -- a form without a default value was chosen over none
        have absent : (old.bind fun forms => (forms.form f).default?) = none := by
          cases kept : old.bind fun forms => (forms.form f).default? with
          | none => rfl
          | some expression =>
              have : (CtorForms.next style old).form f = .withDefault expression := by
                show ParamForm.choose style true (f.field 1)
                    (old.bind fun forms => (forms.form f).default?) = _
                rw [kept]
                rfl
              rw [same] at this
              cases this
        have chosen : (CtorForms.next style old).form f =
            ParamForm.choose style true (f.field 1) none := by
          rw [← absent]
          rfl
        exact chosen.symm.trans same
  exact CtorForms.ext each

namespace ClassText

variable (c : ClassText) (forms : CtorForms) {indent : Text}

def ctorLines (indent : Text) : List Text :=
  (indent ++ (c.name ++ "(\x7b".toList)) ::
    (c.fields.map (fun f => indent ++ (indent ++ (f.param forms ++ [',']))) ++
      [indent ++ "\x7d);".toList])

/-- What stands between the braces of the constructor. -/
def ctorInner (indent : Text) : Text :=
  (c.fields.flatMap fun f => '\n' :: (indent ++ (indent ++ (f.param forms ++ [','])))) ++
    '\n' :: indent

theorem unlines_ctorLines : Text.unlines (c.ctorLines forms indent) =
    indent ++ (c.name ++ "(".toList ++
      ('\x7b' :: c.ctorInner forms indent ++ '\x7d' :: ");".toList)) := by
  unfold ctorLines ctorInner
  rw [Text.unlines_cons_flatMap, List.flatMap_append, List.flatMap_map]
  simp only [List.flatMap_singleton, List.append_assoc, List.cons_append]
  rfl

theorem notMem_ctorLines (ind : IsIndent indent) {d : Char} (strange : d ∈ ['\n', '/']) :
    ∀ line ∈ c.ctorLines forms indent, d ∉ line := by
  have fixed : ∀ d ∈ ['\n', '/'], Text.isPlain d = false ∧ isLight d = false ∧ d ∉ "(\x7b".toList ∧
      d ∉ "\x7d);".toList ∧ d ∉ [','] := by decide
  obtain ⟨plain, heavy, opening, closing, comma⟩ := fixed d strange
  have level : d ∉ indent := by
    intro member
    rw [List.all_eq_true.mp ind.light d member] at heavy
    cases heavy
  intro line member
  simp only [ctorLines, List.mem_cons, List.mem_append, List.mem_map, List.not_mem_nil,
    or_false] at member
  rcases member with rfl | ⟨f, -, rfl⟩ | rfl
  · rw [List.mem_append, List.mem_append, not_or, not_or]
    exact ⟨level, c.isIdentifier.notMem plain, opening⟩
  · rw [List.mem_append, List.mem_append, List.mem_append, not_or, not_or, not_or]
    exact ⟨level, level, ParamForm.notMem_text (forms.isNew f) f.isIdentifier strange, comma⟩
  · rw [List.mem_append, not_or]
    exact ⟨level, closing⟩

theorem lines_unlines_ctorLines (ind : IsIndent indent) :
    (Text.unlines (c.ctorLines forms indent)).lines = c.ctorLines forms indent :=
  Text.lines_unlines (by simp [ctorLines]) (c.notMem_ctorLines forms ind (by decide))

theorem opensConstructor_first (ind : IsIndent indent) :
    opensConstructor (indent ++ (c.name ++ "(\x7b".toList)) c.name := by
  obtain ⟨d, rest, same, upper⟩ := c.upper
  have trimmed : Text.trim (indent ++ (c.name ++ "(\x7b".toList)) = c.name ++ "(\x7b".toList := by
    refine Text.trim_append_of_blank ind.blank ?_ ?_
    · intro e more begins
      rw [same, List.cons_append, List.cons.injEq] at begins
      rw [← begins.1]
      exact c.isIdentifier.solid d (by simp [same])
    · intro e more ends
      have last := congrArg List.getLast? ends
      rw [List.getLast?_append, List.getLast?_concat] at last
      have : '\x7b' = e := by simpa using last
      rw [← this]
      decide
  have keyword : Text.dropStart? "const ".toList (c.name ++ "(\x7b".toList) = none := by
    have apart : List.isPrefixOf ('c' :: "onst ".toList)
        (d :: (rest ++ "(\x7b".toList)) = false := by
      rw [List.isPrefixOf_cons_cons, Bool.and_eq_false_iff]
      refine .inl ?_
      rw [beq_eq_false_iff_ne]
      rintro rfl
      exact absurd upper (by decide)
    rw [same, List.cons_append, Text.dropStart?, if_neg]
    rw [show "const ".toList = 'c' :: "onst ".toList from rfl, apart]
    simp
  rw [opensConstructor, trimmed, keyword]
  refine List.isPrefixOf_iff_prefix.mpr ⟨"\x7b".toList, ?_⟩
  rw [List.append_assoc]
  rfl

theorem level_indent (ind : IsIndent indent) : Level indent := by
  refine ⟨(snippet_light ind.light).toWeighs, ?_⟩
  rw [blankStrings_eq_self (unquoted_of_light ind.light)]
  apply parens_eq_zero
  intro d member
  have blank := List.all_eq_true.mp ind.blank d member
  exact ⟨ne_of_isBlank blank (by decide), ne_of_isBlank blank (by decide)⟩

theorem ctorLine_of_written {weight paren : Int} {line : Text} (ind : IsIndent indent)
    (h : Written weight line) (nonempty : line ≠ [])
    (parens : Line.parens (blankStrings line) = paren) :
    OpenClass.CtorLine weight paren (indent ++ line) := by
  have whole := h.indent ind.blank ind.light
  refine ⟨whole.toWeighs, h.noHeader indent ind.blank, by simp [nonempty], ?_⟩
  rw [(level_indent ind).closed, parens_append, (level_indent ind).parens, parens, Int.zero_add]

theorem ctorLine_param (ind : IsIndent indent) (f : FieldText) :
    OpenClass.CtorLine 0 0 (indent ++ (indent ++ (f.param forms ++ [',']))) := by
  have level : Level (indent ++ (indent ++ (f.param forms ++ [',']))) :=
    (level_indent ind).append ((level_indent ind).append
      ((ParamForm.level_text (forms.isNew f) f.isIdentifier).append
        (level_of_unquoted (by decide) (by decide) (by decide))))
  have other : f.name ≠ "class" := fun same => f.unreserved (by rw [same]; decide)
  refine ⟨level.toWeighs, ?_, by simp, level.parens⟩
  rw [Bool.eq_false_iff]
  intro header
  have inside := Header.class_mem_words header
  rw [← Header.words_trimStart, Text.trimStart_append_of_blank ind.blank,
    Text.trimStart_append_of_blank ind.blank, Header.words_trimStart, Text.words_append (by decide),
    Text.words_nil, List.append_nil] at inside
  exact ParamForm.class_notMem_words (forms.isNew f) f.isIdentifier other inside

theorem isCtor_ctorLines (ind : IsIndent indent) : IsCtor c.name (c.ctorLines forms indent) := by
  have first : Written 1 (c.name ++ '(' :: "\x7b".toList) := by
    have opening : Snippet 1 ('(' :: "\x7b".toList) := snippet_of_unquoted (by decide) (by decide)
    have snippet := (snippet_light c.isIdentifier.light).append opening
    exact written_word snippet c.isIdentifier.wordChars c.isIdentifier.ne_nil (by decide)
      (.inr (by decide))
  have last : Written (-1) "\x7d);".toList :=
    written_mark (snippet_of_unquoted (by decide) (by decide)) (by decide) (by decide) (by decide)
  have opened : Line.parens (blankStrings (c.name ++ '(' :: "\x7b".toList)) = 1 := by
    have inner : Line.parens c.name = 0 := by
      apply parens_eq_zero
      intro d member
      have plain := c.plainName d member
      exact ⟨Text.ne_of_isPlain plain (by decide), Text.ne_of_isPlain plain (by decide)⟩
    rw [blankStrings_append (unquoted_of_light c.isIdentifier.light), parens_append, inner,
      blankStrings_eq_self (by decide)]
    decide
  have closed : Line.parens (blankStrings "\x7d);".toList) = -1 := by
    rw [blankStrings_eq_self (by decide)]
    decide
  refine ⟨_, _, _, rfl, c.opensConstructor_first ind, ?_, ?_, ?_⟩
  · exact ctorLine_of_written ind first (by simp) opened
  · intro line member
    obtain ⟨f, -, rfl⟩ := List.mem_map.mp member
    exact ctorLine_param forms ind f
  · exact ctorLine_of_written ind last (by decide) closed

/-! ## Reading it back -/

theorem brackets_of_isBlank {d : Char} (blank : isBlank d) :
    bracketStep d = 0 ∧ opens d = false ∧ closes d = false := by
  have other : ∀ e, isBlank e = false → (d == e) = false := by
    intro e solid
    simpa using ne_of_isBlank blank solid
  unfold bracketStep opens closes
  rw [other '<' (by decide), other '(' (by decide), other '[' (by decide), other '\x7b' (by decide),
    other '>' (by decide), other ')' (by decide), other ']' (by decide), other '\x7d' (by decide)]
  exact ⟨rfl, rfl, rfl⟩

theorem balanced_indent (ind : IsIndent indent) (depth : Nat) : Balanced depth indent depth :=
  balanced_of_forall
    (fun d member => (brackets_of_isBlank (List.all_eq_true.mp ind.blank d member)).2) depth

theorem balanced_ctorInner (ind : IsIndent indent) : Balanced 2 (c.ctorInner forms indent) 2 := by
  have each : ∀ fields : List FieldText, Balanced 2
      (fields.flatMap fun f => '\n' :: (indent ++ (indent ++ (f.param forms ++ [','])))) 2 := by
    intro fields
    induction fields with
    | nil => rfl
    | cons f rest ih =>
        rw [List.flatMap_cons]
        have text := ParamForm.balanced_text (forms.isNew f) f.isIdentifier
        have comma : Balanced 2 [','] 2 := by decide
        have line : Balanced 2 (indent ++ (indent ++ (f.param forms ++ [',']))) 2 :=
          (balanced_indent ind 2).append ((balanced_indent ind 2).append (text.append comma))
        exact Balanced.append (a := '\n' :: _) line ih
  exact (each c.fields).append (balanced_indent ind 2)

/-- The constructor is cut at its braces. -/
theorem ofText_ctorLines (ind : IsIndent indent) :
    CtorParts.ofText (Text.unlines (c.ctorLines forms indent)) c.name =
      ⟨[], .named, c.ctorInner forms indent, ";".toList⟩ := by
  obtain ⟨d, rest, same, upper⟩ := c.upper
  have solid : isBlank d = false := c.isIdentifier.solid d (by simp [same])
  have cut : Text.cut? (c.name ++ "(".toList) (Text.unlines (c.ctorLines forms indent)) =
      some (indent, '\x7b' :: c.ctorInner forms indent ++ '\x7d' :: ");".toList) := by
    rw [c.unlines_ctorLines, same, List.cons_append]
    exact Text.cut?_blank ind.blank solid
  have inner : cutAtClose 1 ('\x7b' :: c.ctorInner forms indent ++ '\x7d' :: ");".toList) =
      some ('\x7b' :: c.ctorInner forms indent ++ ['\x7d'], ";".toList) := by
    have balanced : Balanced 1 ('\x7b' :: c.ctorInner forms indent ++ ['\x7d']) 1 :=
      Balanced.append (a := '\x7b' :: _) (c.balanced_ctorInner forms ind)
        (by decide : Balanced 2 ['\x7d'] 1)
    have whole : '\x7b' :: c.ctorInner forms indent ++ '\x7d' :: ");".toList =
        ('\x7b' :: c.ctorInner forms indent ++ ['\x7d']) ++ ");".toList := by
      simp
    rw [whole, cutAtClose_append balanced]
    have close : cutAtClose 1 ");".toList = some ([], ";".toList) := by decide
    rw [close, Option.map_some]
    dsimp only
    rw [List.append_nil]
  have trimmed : Text.trim ('\x7b' :: c.ctorInner forms indent ++ ['\x7d']) =
      '\x7b' :: c.ctorInner forms indent ++ ['\x7d'] := by
    rw [Text.trim, List.cons_append, Text.trimStart_cons (by decide), ← List.cons_append,
      Text.trimEnd_concat (by decide)]
  have wrapped : Text.startsWith ('\x7b' :: c.ctorInner forms indent ++ ['\x7d'])
      "\x7b".toList = true ∧
      Text.endsWith ('\x7b' :: c.ctorInner forms indent ++ ['\x7d']) "\x7d".toList = true :=
    ⟨rfl, List.isSuffixOf_iff_suffix.mpr (List.suffix_append _ _)⟩
  have unwrapped : CtorParts.unwrap ('\x7b' :: c.ctorInner forms indent ++ ['\x7d']) =
      c.ctorInner forms indent := by
    rw [CtorParts.unwrap, List.cons_append, List.drop_one, List.tail_cons, List.dropLast_concat]
  rw [CtorParts.ofText, cut]
  dsimp only
  rw [inner]
  dsimp only [Option.getD_some]
  have lead : indent.trim = [] := Text.trim_of_isBlankText ind.blank
  rw [if_pos (by rw [trimmed, wrapped.1, wrapped.2]; rfl), trimmed, unwrapped, lead]
  rfl

/-- The parameters come back. -/
theorem splitTopLevel_ctorInner (ind : IsIndent indent) :
    Text.splitTopLevel ',' (c.ctorInner forms indent) = c.fields.map (·.param forms) := by
  have level : ∀ t : Text, t.isBlankText → Text.Passes bracketStep (· == ',') 0 t 0 := by
    intro t blank
    apply Text.passes_of_forall
    intro d member
    have here := List.all_eq_true.mp blank d member
    exact ⟨(brackets_of_isBlank here).1, by simpa using ne_of_isBlank here (by decide)⟩
  have feed : Text.isBlankText ('\n' :: indent) := by
    rw [Text.isBlankText, List.all_cons, show List.all indent isBlank = true from ind.blank]
    rfl
  have lead : Text.isBlankText ('\n' :: (indent ++ indent)) := by
    rw [Text.isBlankText, List.all_cons, List.all_append,
      show List.all indent isBlank = true from ind.blank]
    rfl
  have pieces : ∀ fields : List FieldText, Text.splitAtDepth bracketStep (· == ',') 0
      ((fields.flatMap fun f => '\n' :: (indent ++ (indent ++ (f.param forms ++ [','])))) ++
        '\n' :: indent) =
      (fields.map fun f => '\n' :: (indent ++ indent) ++ f.param forms) ++ ['\n' :: indent] := by
    intro fields
    induction fields with
    | nil => exact Text.splitAtDepth_last (level _ feed)
    | cons f rest ih =>
        have passes : Text.Passes bracketStep (· == ',') 0
            ('\n' :: (indent ++ indent) ++ f.param forms) 0 :=
          (level _ lead).append (ParamForm.passes_text (forms.isNew f) f.isIdentifier)
        have whole : (f :: rest).flatMap
            (fun f => '\n' :: (indent ++ (indent ++ (f.param forms ++ [','])))) ++
            '\n' :: indent = ('\n' :: (indent ++ indent) ++ f.param forms) ++ ',' ::
              (rest.flatMap (fun f => '\n' :: (indent ++ (indent ++ (f.param forms ++ [','])))) ++
                '\n' :: indent) := by
          simp only [List.flatMap_cons, List.append_assoc, List.cons_append, List.nil_append]
        rw [whole, Text.splitAtDepth_piece passes (by decide) (by decide), ih, List.map_cons]
        rfl
  have trimmed : ∀ f : FieldText, Text.trim ('\n' :: (indent ++ indent) ++ f.param forms) =
      f.param forms := by
    intro f
    have trimmed : Text.trim ('\n' :: (indent ++ indent) ++ f.param forms ++ []) = f.param forms :=
      ParamForm.trim_text (forms.isNew f) f.isIdentifier lead rfl
    rwa [List.append_nil] at trimmed
  have blank : Text.trim ('\n' :: indent) = [] := Text.trim_of_isBlankText feed
  have nonempty : ∀ f : FieldText, (f.param forms).isEmpty = false := by
    intro f
    rw [FieldText.param, ParamForm.text_eq]
    simp [f.isIdentifier.ne_nil]
  rw [Text.splitTopLevel, ctorInner, pieces, List.map_append, List.map_map, List.filter_append,
    List.map_singleton, blank]
  simp only [Function.comp_def, trimmed]
  rw [List.filter_eq_self.mpr]
  · simp
  · intro t member
    obtain ⟨f, -, rfl⟩ := List.mem_map.mp member
    rw [nonempty f]
    rfl

end ClassText

end Fresh

end ValueClass
