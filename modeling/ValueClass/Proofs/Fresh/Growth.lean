import ValueClass.Proofs.Fresh.Grown

/-! # How a class grows

Whatever members are written for a class that has grown, and whatever of them the user
declines, what is then pending gives a grown class again.
-/

namespace ValueClass.Fresh

open Dart Dart.Line

/-! ## Headers -/

theorem render_headerParts (name : Text) :
    (headerParts name true).render (headerLine name false) = headerLine name true := by
  have written : (headerParts name true).render (headerLine name false) =
      [] ++ [] ++ "class ".toList ++ name ++ [] ++
        (" extends ".toList ++ "Equatable".toList) ++ [] ++ [] ++
        " \x7b".toList := rfl
  rw [written]
  unfold headerLine
  simp only [List.append_assoc, List.nil_append, ↓reduceIte]
  rfl

theorem useEquatable_headerParts {d : Draft} {name : Text} {extended : Bool}
    (header : d.decl.header = headerParts name extended) :
    d.useEquatable = if extended then d
      else { d with
        decl := { d.decl with header := headerParts name true }
        headerChanged := true } := by
  cases extended with
  | true =>
      have uses : d.decl.header.usesEquatable := by
        rw [header]
        rfl
      rw [Draft.useEquatable, if_pos uses, if_pos rfl]
  | false =>
      have uses : d.decl.header.usesEquatable = false := by
        rw [header]
        rfl
      rw [Draft.useEquatable, uses, header]
      simp only [headerParts, Bool.false_eq_true, ↓reduceIte, Draft.setSuperclass, header]
      rfl

/-! ## Texts -/

namespace ClassText

variable {c : ClassText} {s : Surroundings}

theorem mild_mark (c : ClassText) (ind : IsIndent s.indent) : Mild (s.indent ++ markLine) := by
  have level : Line.braces (s.indent ++ markLine) = 0 := by
    rw [braces_append, (snippet_light ind.light).raw]
    decide
  exact mild_of_quiet (quietLine_mark c ind) (by omega) (by omega)

theorem calm_methodLines (ind : IsIndent s.indent) {kind : MemberKind}
    (method : kind ≠ .constructor) :
    Calm c.name false (c.methodLines s kind) := by
  obtain ⟨first, more, sheet⟩ := c.exists_sheet s ind method
  rw [methodLines_eq ind sheet]
  split
  · exact .cons (mild_mark c ind) (.inl (tame_of_quiet (quietLine_mark c ind))) sheet.calm.exposed
  · exact sheet.calm

theorem calm_nil : Calm c.name false [[]] := by
  have quiet := quietLine_nil c.name c.upper
  exact .singleton (mild_of_quiet quiet (by decide) (by decide)) (tame_of_quiet quiet)

end ClassText

namespace Grown

variable {c : ClassText} (g : Grown c) {s : Surroundings} {selector : Option MemberKind}
  {lineNo : Nat}
  {taken : List Text} {lastLine : Option Nat}

theorem present?_constructor :
    present? (g.decl lineNo taken lastLine) .constructor = g.forms.map fun forms =>
    { first := lineNo + c.fields.length + 2
      last := lineNo + c.fields.length + 1 + (c.ctorLines forms g.indent).length
      text := Text.unlines (c.ctorLines forms g.indent) } := by
  have read : (g.decl lineNo taken lastLine).ctor = readCtor (lineNo + c.fields.length)
      (c.oldCtor g.forms g.indent) := rfl
  rw [present?, read]
  cases g.forms <;> rfl

theorem replacesCtor (ind : IsIndent s.indent) {r : Replacement}
    (h : replacementFor? s (g.decl lineNo taken lastLine) .constructor = some r) :
    g.ReplacesCtor lineNo r := by
  obtain ⟨present, -, text⟩ := replacementFor?_eq_some h
  have shown := g.shows_decl lineNo taken lastLine
  have written : r.text = Text.unlines (c.ctorLines (.next s.style g.forms) s.indent) :=
    text.trans (shown.constructorText g.isIndent ind)
  rw [present?_constructor] at present
  obtain ⟨forms, known, span⟩ := Option.map_eq_some_iff.mp present
  have ctor : g.ctor = some (c.ctorLines forms g.indent) := by
    rw [Grown.ctor, ClassText.oldCtor, known]
    rfl
  refine ⟨by simp [known], ?_, ?_, _, _, ind, written⟩
  · rw [← span]
  · rw [← span, Pending.length_front, ctor, ctorPart, List.length_cons]
    dsimp only
    omega

theorem replacesMember (ind : IsIndent s.indent) (mild : ∀ line ∈ taken, Mild line)
    {kind : MemberKind} (method : kind ≠ .constructor) {r : Replacement}
    (h : replacementFor? s (g.decl lineNo taken lastLine) kind = some r) :
    g.ReplacesMember lineNo taken r := by
  obtain ⟨present, -, text⟩ := replacementFor?_eq_some h
  have shown := g.shows_decl lineNo taken lastLine
  obtain ⟨first, more, sheet⟩ := c.exists_sheet s ind method
  have found : (g.decl lineNo taken lastLine).find?
      (Method.finder (g.decl lineNo taken lastLine) kind) = some r.span :=
    (present?_of_method _ method).symm.trans present
  have written : r.text = Text.indentBlock s.indent
      (Text.replaceAll Method.overrideMark [] (methodText s c.plain kind)) := by
    rw [← (shown.looksLike g.isIndent).methodText s kind, text, memberText_of_method s _ method]
  have name : IsIdentifier (g.decl lineNo taken lastLine).name := shown.name ▸ c.isIdentifier
  have unlike : ∀ line ∈ g.front, ¬ (Method.finder (g.decl lineNo taken lastLine) kind).ink <+:
      line.ink := by
    intro line member
    rw [ink_finder name (shown.type.trans shown.name.symm), shown.name]
    exact g.unlike_front method line member
  have behind : ClassDecl.findFrom
      (Text.signature (Method.finder (g.decl lineNo taken lastLine) kind))
      (depthBehind 0 g.front) (lineNo + g.front.length) taken = some r.span :=
    (ClassDecl.findFrom_append unlike 0 lineNo taken).symm.trans found
  obtain ⟨low, ends⟩ := ClassDecl.findFrom_isEnd mild behind
  refine ⟨low, ends, ?_⟩
  rw [written, sheet.layout.lines_memberText ind.noFeed]
  exact sheet.calm

theorem calm_appended (ind : IsIndent s.indent) {kinds : List MemberKind} {a : Text}
    (calm : Calm c.name false a.lines) :
    Calm c.name false (Text.lines
      (a ++ kinds.flatMap (appendedFor s (g.decl lineNo taken lastLine)))) := by
  induction kinds generalizing a with
  | nil => simpa using calm
  | cons kind rest ih =>
      rw [List.flatMap_cons, ← List.append_assoc]
      apply ih
      rw [appendedFor]
      split
      · rename_i new
        have same := ((g.shows_decl lineNo taken lastLine).looksLike g.isIndent).methodText s kind
        have lines : Text.lines
            (a ++ ("\n".toList ++ Text.indentBlock s.indent (methodText s c.plain kind))) =
            a.lines ++ c.methodLines s kind := Text.lines_append_feed _ _
        rw [same, lines]
        exact calm.append (c.calm_methodLines ind new.1).exposed
      · simpa using calm

theorem header_of_isReviewOf {d : Draft}
    (review : d.IsReviewOf (draftFor s selector (g.decl lineNo taken lastLine))) :
    ∃ extended, (if d.headerChanged then d.decl.header.render (headerLine c.name g.extended)
      else headerLine c.name g.extended) = headerLine c.name extended := by
  have changed : d.headerChanged = (headerFor { decl := g.decl lineNo taken lastLine }
      (kindsFor s.style (g.decl lineNo taken lastLine).header selector)).headerChanged := by
    rw [review.1]
    rfl
  have decl : d.decl = (headerFor { decl := g.decl lineNo taken lastLine }
      (kindsFor s.style (g.decl lineNo taken lastLine).header selector)).decl := by
    rw [review.1]
    rfl
  have header : (g.decl lineNo taken lastLine).header = headerParts c.name g.extended := rfl
  rw [changed, decl, headerFor]
  split
  · rw [useEquatable_headerParts header]
    cases extended : g.extended with
    | true => exact ⟨true, rfl⟩
    | false => exact ⟨true, render_headerParts c.name⟩
  · exact ⟨g.extended, rfl⟩

/-- What is left after a review is pending for the grown class. -/
theorem pending_of_isReviewOf (ind : IsIndent s.indent) (mild : ∀ line ∈ taken, Mild line)
    {d : Draft} (review : d.IsReviewOf (draftFor s selector (g.decl lineNo taken lastLine))) :
    g.Pending lineNo taken d := by
  have alike : d.decl.Alike (g.decl lineNo taken lastLine) := by
    rw [review.1]
    exact alike_draftFor s selector _
  obtain ⟨inserted, appended, replacements⟩ :=
    draftFor_pending s selector (g.decl lineNo taken lastLine)
  have shown := g.shows_decl lineNo taken lastLine
  refine ⟨alike.lines, alike.firstLine, ?_, g.header_of_isReviewOf review, ?_, ?_, ?_⟩
  · rw [ClassDecl.lastFieldLine?, alike.fields]
    exact getLast?_placed c.nonempty lineNo
  · intro r member
    have written := review.2.subset member
    rw [replacements] at written
    obtain ⟨kind, -, same⟩ := List.mem_filterMap.mp written
    by_cases method : kind = .constructor
    · exact .inl (g.replacesCtor ind (method ▸ same))
    · exact .inr (g.replacesMember ind mild method same)
  · have same : d.inserted = (draftFor s selector (g.decl lineNo taken lastLine)).inserted := by
      rw [review.1]
    rw [same, inserted, flatMap_insertedFor s _ (nodup_kindsFor _ _ _), insertedFor]
    split
    · split
      · rename_i missing
        refine .inr ⟨?_, _, _, ind, congrArg ('\n' :: ·) (shown.constructorText g.isIndent ind)⟩
        simpa [present?_constructor] using missing.2
      · exact .inl rfl
    · exact .inl rfl
  · have same : d.appended = (draftFor s selector (g.decl lineNo taken lastLine)).appended := by
      rw [review.1]
    rw [same, appended]
    intro _
    exact g.calm_appended (a := []) ind ClassText.calm_nil

end Grown

end ValueClass.Fresh
