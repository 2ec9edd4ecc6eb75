import ValueClass.Proofs.Member.Kept

/-! # A constructor that is written twice

The constructor that was written is read back parameter by parameter: those that bind no
field are taken over again, those of the fields give the forms that were chosen, and what
stands before and behind the list is kept. So the constructor that is written for it
differs from it in layout at most, and nothing is replaced.
-/

namespace ValueClass.Dart

open Text (Reindents)
open FieldParam (IsParam IsExpression)

/-! ## The text -/

section Read

variable {c : ClassDecl} {ctor : Constructor}

theorem listText_eq_group (style : Style) (valid : c.isValid) (found : c.ctor = some ctor)
    (complete : ctor.lastLine.isNone = false) (indent : Text) :
    (ConstructorPlan.ofClass style c).listText indent = ConstructorPlan.listOf indent
      (ConstructorPlan.ofClass style c).outside (ConstructorPlan.ofClass style c).group :=
  listText_eq_listOf style valid found complete indent

/-- The constructor that is written, cut at the name and at the parentheses. -/
theorem text_laysOut (style : Style) {indent : Text} (valid : c.isValid)
    (found : c.ctor = some ctor) (complete : ctor.lastLine.isNone = false)
    (readable : (KeptParams.ofClass c).IsReadable) (blank : indent.isBlankText) :
    let plan := ConstructorPlan.ofClass style c
    ∃ lead inner gap, plan.text indent c.name = lead ++
      (c.name ++ '(' :: (inner ++ ')' :: (gap ++ plan.kept.rest))) ∧
      CtorParts.LaysOut plan.outside plan.group inner ∧
      (lead = [] ∨ lead = "const ".toList) ∧ lead.trim = plan.kept.lead ∧
        (gap = [] ∨ gap = [' ']) := by
  intro plan
  obtain ⟨inner, list, laid⟩ := CtorParts.laysOut_listOf blank plan.outside plan.group
  have listText : plan.listText indent = '(' :: (inner ++ [')']) :=
    (listText_eq_group style valid found complete indent).trans list
  have front : ∃ lead : Text, Text.when (!plan.kept.lead.isEmpty) (plan.kept.lead ++ " ") = lead ∧
      (lead = [] ∨ lead = "const ".toList) ∧ lead.trim = plan.kept.lead := by
    rcases readable.lead with none | word
    · refine ⟨[], ?_, .inl rfl, none.symm⟩
      rw [show plan.kept.lead = [] from none]
      rfl
    · refine ⟨"const ".toList, ?_, .inr rfl, ?_⟩
      · rw [show plan.kept.lead = _ from word]
        rfl
      · rw [show plan.kept.lead = _ from word]
        decide
  obtain ⟨lead, shown, words, trimmed⟩ := front
  refine ⟨lead, inner, Text.when (!(plan.kept.rest.isEmpty || plan.kept.rest.startsWith ";")) " ",
    ?_, laid, words,
    trimmed, ?_⟩
  · rw [ConstructorPlan.text, shown, listText]
    simp
  · rw [Text.when]
    split
    · exact .inr rfl
    · exact .inl rfl

theorem isParam_outside {style : Style} (readable : (KeptParams.ofClass c).IsReadable)
    (sound : KeptParams.AreSound
      ((ConstructorPlan.ofClass style c).plain ++ (ConstructorPlan.ofClass style c).grouped)) :
    ∀ param ∈ (ConstructorPlan.ofClass style c).outside, IsParam param ∧
      CtorParts.opensGroup param = false := by
  intro param member
  rw [ConstructorPlan.outside] at member
  split at member
  · rename_i positional
    rcases List.mem_append.mp member with extra | bound
    · exact ⟨(readable.extras param (List.mem_append_left _ extra)).1,
        readable.opened positional param extra⟩
    · obtain ⟨isParam, other, -⟩ := KeptParams.isParam_textsOf
        (fun name form inside => sound name form (List.mem_append_left _ inside)) param bound
      exact ⟨isParam, other⟩
  · cases member

theorem isParam_group {style : Style} (readable : (KeptParams.ofClass c).IsReadable)
    (sound : KeptParams.AreSound
      ((ConstructorPlan.ofClass style c).plain ++ (ConstructorPlan.ofClass style c).grouped)) :
    ∀ group ∈ (ConstructorPlan.ofClass style c).group, ∀ param ∈ group.2, IsParam param := by
  have plain : ∀ param ∈ (KeptParams.ofClass c).extras ++ KeptParams.textsOf
      (ConstructorPlan.ofClass style c).plain,
      IsParam param := by
    intro param member
    rcases List.mem_append.mp member with extra | bound
    · exact (readable.extras param (List.mem_append_left _ extra)).1
    · exact (KeptParams.isParam_textsOf
        (fun name form inside => sound name form (List.mem_append_left _ inside)) param bound).1
  have grouped : ∀ param ∈ (KeptParams.ofClass c).groupExtras ++ KeptParams.textsOf
      (ConstructorPlan.ofClass style c).grouped,
      IsParam param := by
    intro param member
    rcases List.mem_append.mp member with extra | bound
    · exact (readable.extras param (List.mem_append_right _ extra)).1
    · exact (KeptParams.isParam_textsOf
        (fun name form inside => sound name form (List.mem_append_right _ inside)) param bound).1
  intro group found
  rw [ConstructorPlan.group, ConstructorPlan.bracket?] at found
  split at found
  · cases found
    exact plain
  · cases found
    exact plain
  · cases bracket : (ConstructorPlan.ofClass style c).kept.group with
    | none =>
        rw [bracket] at found
        cases found
    | some g =>
        rw [bracket] at found
        cases found
        exact grouped

theorem exists_solid_front {name lead : Text} (label : IsLabel name)
    (words : lead = [] ∨ lead = "const ".toList) (behind : Text) :
    ∃ first more, lead ++ (name ++ '(' :: behind) = first :: more ∧ isBlank first = false := by
  rcases words with rfl | rfl
  · rw [List.nil_append]
    have front := label.trimStart behind
    cases split : name ++ '(' :: behind with
    | nil => simp at split
    | cons first more =>
        rw [split] at front
        exact ⟨first, more, rfl, Text.isBlank_head_trimStart front⟩
  · exact ⟨'c', _, rfl, by decide⟩

theorem reindents_parts {name lead inner gap rest block : Text} (label : IsLabel name)
    (words : lead = [] ∨ lead = "const ".toList) (gaps : gap = [] ∨ gap = [' '])
    (reindented : Reindents (lead ++ (name ++ '(' :: (inner ++ ')' :: (gap ++ rest)))) block) :
    ∃ inner' rest', block = lead ++ (name ++ '(' :: (inner' ++ ')' :: (gap ++ rest'))) ∧
      Reindents inner inner' ∧ Reindents rest rest' := by
  have oneLine : '\n' ∉ lead ++ (name ++ ['(']) := by
    have front : '\n' ∉ lead := by rcases words with rfl | rfl <;> decide
    simp [front, label.1]
  have oneGap : '\n' ∉ ')' :: gap := by rcases gaps with rfl | rfl <;> decide
  have shape : lead ++ (name ++ '(' :: (inner ++ ')' :: (gap ++ rest))) =
      (lead ++ (name ++ ['('])) ++ (inner ++ ((')' :: gap) ++ rest)) := by simp
  rw [shape] at reindented
  obtain ⟨front, behind, rfl, start, later⟩ := reindented.of_append
  obtain ⟨inner', behind', rfl, inside, last⟩ := later.of_append
  obtain ⟨close, rest', rfl, closing, rest⟩ := last.of_append
  refine ⟨inner', rest', ?_, inside, rest⟩
  rw [start.eq_of_notMem oneLine, closing.eq_of_notMem oneGap]
  simp

/-- What is read of the constructor that was written. -/
theorem read_constructorText {text : Text} (member : c ∈ scan text) (valid : c.isValid)
    (found : c.ctor = some ctor) (complete : ctor.lastLine.isNone = false) {s : Surroundings}
    (blank : s.indent.isBlankText) (readable : (KeptParams.ofClass c).IsReadable)
    (sound : KeptParams.AreSound
      ((ConstructorPlan.ofClass s.style c).plain ++ (ConstructorPlan.ofClass s.style c).grouped)) :
    let plan := ConstructorPlan.ofClass s.style c
    let parts := CtorParts.ofText (constructorText s c) c.name
    ∃ outside group, List.Forall₂ Reindents plan.outside outside ∧
      Option.Rel (fun a b => a.1 = b.1 ∧ List.Forall₂ Reindents a.2 b.2) plan.group group ∧
      parts.lead = plan.kept.lead ∧ (parts.style, parts.params) = CtorParts.readOf outside group ∧
      Reindents plan.kept.rest parts.rest := by
  intro plan parts
  have label := isLabel_of_mem_scan member
  obtain ⟨lead, inner, gap, whole, laid, words, trimmed, gaps⟩ :=
    text_laysOut s.style valid found complete readable blank
  obtain ⟨first, more, begins, solid⟩ :=
    exists_solid_front label words (inner ++ ')' :: (gap ++ plan.kept.rest))
  obtain ⟨block, reindented, shown⟩ := Text.indentBlock_eq blank solid more
  rw [← begins] at reindented shown
  rw [← whole] at shown
  obtain ⟨inner', rest', rfl, inside, rest⟩ := reindents_parts label words gaps reindented
  obtain ⟨outside, group, plain, grouped, laid'⟩ := laid.reindents inside
  have isLead : IsLead (s.indent ++ lead) := by
    rcases words with rfl | rfl
    · rw [List.append_nil]
      exact .inl blank
    · exact .inr ⟨s.indent, [], blank, rfl, by simp⟩
  have final : constructorText s c = s.indent ++ lead ++
      (c.name ++ '(' :: (inner' ++ ')' :: (gap ++ rest'))) := by
    rw [constructorText, shown]
    simp
  have plain' := KeptParams.forall_of_forall₂ plain
    (Q := fun param => IsParam param ∧ CtorParts.opensGroup param = false)
    (fun _ _ same h =>
      ⟨KeptParams.isParam_reindents same h.1, by rw [CtorParts.opensGroup_reindents same, h.2]⟩)
    (isParam_outside readable sound)
  have grouped' : ∀ g ∈ group, ∀ param ∈ g.2, IsParam param := by
    have each := isParam_group readable sound
    generalize plan.group = old at grouped each
    cases grouped with
    | none => simp
    | some same =>
        rintro g ⟨⟩
        exact KeptParams.forall_of_forall₂ same.2 (fun _ _ => KeptParams.isParam_reindents)
          (each _ rfl)
  obtain ⟨leads, read, rests⟩ :=
    @CtorParts.ofText_laysOut c.name (s.indent ++ lead) inner' (gap ++ rest') outside group isLead
      label laid' plain' grouped'
  have spaces : Text.isBlankText gap := by rcases gaps with rfl | rfl <;> rfl
  have parted : parts = CtorParts.ofText
      (s.indent ++ lead ++ (c.name ++ '(' :: (inner' ++ ')' :: (gap ++ rest')))) c.name := by
    rw [← final]
  refine ⟨outside, group, plain, grouped, ?_, ?_, ?_⟩
  · rw [parted, leads, Text.trim, Text.trimStart_append_of_blank blank]
    exact trimmed
  · rw [parted]
    exact read
  · rw [parted, rests, Text.trim, Text.trimStart_append_of_blank spaces]
    have kept : Text.trim rest' = rest' := rest.trim_eq readable.rest
    rw [Text.trim] at kept
    rw [kept]
    exact rest

end Read

/-! ## What is written again -/

section Again

variable {c : ClassDecl} {style : Style}

/-- The list that is read is written for what is kept of it. -/
structure Settles (style : Style) (c : ClassDecl) (outside : List Text)
    (group : Option (GroupStyle × List Text)) (kept : KeptParams) : Prop where
  extras : List.Forall₂ Reindents
    ((KeptParams.ofClass c).extras ++ (KeptParams.ofClass c).groupExtras)
    (kept.extras ++ kept.groupExtras)
  outside : (ConstructorPlan.ofKept style c.fields kept).outside = outside
  group : (ConstructorPlan.ofKept style c.fields kept).group = group

/-- Where the list has its style and its fields their default values and their sides, the
    same forms are chosen. -/
theorem forms_again {kept : KeptParams} (style' : kept.style = (KeptParams.ofClass c).style)
    (group : kept.group = (KeptParams.ofClass c).group)
    (fields : ∀ f ∈ c.fields, kept.groupFields.contains f.name =
      (KeptParams.ofClass c).groupFields.contains f.name)
    (lookups : ∀ name form,
      (name, form) ∈ (ConstructorPlan.ofClass style c).plain ++
        (ConstructorPlan.ofClass style c).grouped →
        kept.defaults.lookup name = some form.default?) :
    (ConstructorPlan.ofKept style c.fields kept).plain = (ConstructorPlan.ofClass style c).plain ∧
      (ConstructorPlan.ofKept style c.fields kept).grouped =
        (ConstructorPlan.ofClass style c).grouped := by
  have others : (c.fields.filter fun f => !kept.groupFields.contains f.name) =
      c.fields.filter fun f => !(KeptParams.ofClass c).groupFields.contains f.name :=
    List.filter_congr fun f member => by rw [fields f member]
  have members : (c.fields.filter fun f => kept.groupFields.contains f.name) =
      c.fields.filter fun f => (KeptParams.ofClass c).groupFields.contains f.name :=
    List.filter_congr fun f member => by rw [fields f member]
  rw [ConstructorPlan.ofKept]
  dsimp only
  rw [others, members, style', group]
  constructor
  · exact KeptParams.formsOf_again fun name form member =>
      lookups name form (List.mem_append_left _ member)
  · exact KeptParams.formsOf_again fun name form member =>
      lookups name form (List.mem_append_right _ member)

theorem exists_inside {bracket : GroupStyle} {texts : List Text}
    {group : Option (GroupStyle × List Text)}
    (grouped : Option.Rel (fun a b => a.1 = b.1 ∧ List.Forall₂ Reindents a.2 b.2)
      (some (bracket, texts)) group) :
    ∃ inside, group = some (bracket, inside) ∧ List.Forall₂ Reindents texts inside := by
  cases grouped with
  | @some _ b same =>
      obtain ⟨bracket', inside⟩ := b
      obtain ⟨rfl, inner⟩ := same
      exact ⟨inside, rfl, inner⟩

theorem contains_boundOf (valid : c.isValid) {inside : List Text}
    (bound : inside.filterMap FieldParam.ofText? =
      KeptParams.paramsOf (ConstructorPlan.ofClass style c).grouped) :
    ∀ f ∈ c.fields, ((KeptParams.boundOf c.fieldNames inside).map (·.field)).contains f.name =
      (KeptParams.ofClass c).groupFields.contains f.name := by
  obtain ⟨-, all⟩ := @names_ofClass c style valid
  have keys : (KeptParams.boundOf c.fieldNames inside).map (·.field) =
      (ConstructorPlan.ofClass style c).grouped.map (·.1) := by
    rw [KeptParams.boundOf_written (fun name member =>
      all name (by simp only [List.map_append, List.mem_append]; exact .inr member)) bound,
      KeptParams.paramsOf, List.map_map]
    rfl
  intro f member
  rw [keys, grouped_names, Bool.eq_iff_iff, List.contains_iff_mem, List.mem_filter]
  exact ⟨fun h => h.2, fun h => ⟨List.mem_map_of_mem member, h⟩⟩

/-- Where all fields are in the bracket at the end, a list that is all in this bracket has the
    same forms. -/
theorem forms_inside {inside : List Text} {lead rest : Text} (valid : c.isValid)
    {bracket : GroupStyle}
    (ends : (KeptParams.ofClass c).group = some bracket)
    (empty : (ConstructorPlan.ofClass style c).plain = [])
    (read : inside.filterMap FieldParam.ofText? =
      KeptParams.paramsOf
        ((ConstructorPlan.ofClass style c).plain ++ (ConstructorPlan.ofClass style c).grouped)) :
    (ConstructorPlan.ofKept style c.fields
      (.ofRead c.fieldNames lead rest (CtorParts.listStyle bracket) inside none)).plain =
        (ConstructorPlan.ofClass style c).grouped := by
  obtain ⟨nodup, all⟩ := @names_ofClass c style valid
  have every : (c.fields.filter fun f => (KeptParams.ofClass c).groupFields.contains f.name) =
      c.fields := by
    rw [plain_eq, KeptParams.formsOf, List.map_eq_nil_iff, List.filter_eq_nil_iff] at empty
    rw [List.filter_eq_self]
    intro f member
    simpa using empty f member
  have first := grouped_eq style c
  have flags : (some bracket == some GroupStyle.named) =
      (CtorParts.listStyle bracket == .named) := by
    cases bracket <;> rfl
  have whole : c.fields.filter (fun f => !([] : List Text).contains f.name) = c.fields := by simp
  rw [ends, every, flags, ← whole] at first
  rw [first]
  refine KeptParams.formsOf_again fun name form member => ?_
  have here : (name, form) ∈ (ConstructorPlan.ofClass style c).plain ++
      (ConstructorPlan.ofClass style c).grouped := by
    rw [first]
    exact List.mem_append_right _ member
  refine KeptParams.lookup_written nodup all ?_ here
  show List.filterMap _ (inside ++ []) = _
  rw [List.append_nil]
  exact read

section Cases

variable {names : List Text} {outside : List Text} {group : Option (GroupStyle × List Text)}
  {lead rest : Text}
  (valid : c.isValid) (readable : (KeptParams.ofClass c).IsReadable)
  (sound : KeptParams.AreSound
    ((ConstructorPlan.ofClass style c).plain ++ (ConstructorPlan.ofClass style c).grouped))
  (plain : List.Forall₂ Reindents (ConstructorPlan.ofClass style c).outside outside)
  (grouped : Option.Rel (fun a b => a.1 = b.1 ∧ List.Forall₂ Reindents a.2 b.2)
    (ConstructorPlan.ofClass style c).group group)

include valid readable sound plain grouped

/-- A list without brackets. -/
theorem settles_plain (positional : (KeptParams.ofClass c).style = .positional)
    (alone : (KeptParams.ofClass c).group = none)
    (nothing : (KeptParams.ofClass c).groupExtras = [] ∧ (KeptParams.ofClass c).groupFields = []) :
    group = none ∧ Settles style c outside group
      (.ofRead c.fieldNames lead rest .positional outside none) := by
  obtain ⟨nodup, all⟩ := @names_ofClass c style valid
  obtain ⟨shape, bare⟩ := @shape_of_positional (ConstructorPlan.ofClass style c) positional
  rw [show (ConstructorPlan.ofClass style c).kept.group = none from alone] at bare
  have empty := @grouped_eq_nil c style nothing.2
  rw [bare] at grouped
  cases grouped
  rw [shape] at plain
  rw [empty, List.append_nil] at sound nodup all
  obtain ⟨extras', same, written, kept, bound⟩ := KeptParams.read_written
    (fun param member => readable.extras param (List.mem_append_left _ member)) sound plain
  have again := @forms_again c style (.ofRead c.fieldNames lead rest .positional outside none)
      positional.symm alone.symm
    (fun f _ => by rw [nothing.2]; rfl) fun name form member => by
      rw [empty, List.append_nil] at member
      refine KeptParams.lookup_written nodup all ?_ member
      show List.filterMap _ (outside ++ []) = _
      rw [List.append_nil, bound]
  refine ⟨rfl, ?_, ?_, rfl⟩
  · rw [nothing.1, List.append_nil]
    show List.Forall₂ Reindents _ (KeptParams.extrasOf outside ++ [])
    rw [kept, List.append_nil]
    exact same
  · show KeptParams.extrasOf outside ++ KeptParams.textsOf _ = outside
    rw [kept, again.1, ← written]

/-- All of a list in brackets. -/
theorem settles_bracket {bracket : GroupStyle}
    (style' : (KeptParams.ofClass c).style = CtorParts.listStyle bracket)
    (alone : (KeptParams.ofClass c).group = none)
    (nothing : (KeptParams.ofClass c).groupExtras = [] ∧ (KeptParams.ofClass c).groupFields = []) :
    outside = [] ∧ ∃ inside, group = some (bracket, inside) ∧
      Settles style c outside group
        (.ofRead c.fieldNames lead rest (CtorParts.listStyle bracket) inside none) := by
  obtain ⟨nodup, all⟩ := @names_ofClass c style valid
  obtain ⟨bare, shape⟩ := @shape_of_bracket (ConstructorPlan.ofClass style c) bracket style'
  have empty := @grouped_eq_nil c style nothing.2
  rw [bare] at plain
  cases plain
  rw [shape] at grouped
  rw [empty, List.append_nil] at sound nodup all
  obtain ⟨inside, rfl, inner⟩ := exists_inside grouped
  obtain ⟨extras', same, written, kept, bound⟩ := KeptParams.read_written
    (fun param member => readable.extras param (List.mem_append_left _ member)) sound inner
  have again := @forms_again c style
      (.ofRead c.fieldNames lead rest (CtorParts.listStyle bracket) inside none) style'.symm
    alone.symm (fun f _ => by rw [nothing.2]; rfl) fun name form member => by
      rw [empty, List.append_nil] at member
      refine KeptParams.lookup_written nodup all ?_ member
      show List.filterMap _ (inside ++ []) = _
      rw [List.append_nil, bound]
  refine ⟨rfl, inside, rfl, ?_, ?_, ?_⟩
  · rw [nothing.1, List.append_nil]
    show List.Forall₂ Reindents _ (KeptParams.extrasOf inside ++ [])
    rw [kept, List.append_nil]
    exact same
  · exact (shape_of_bracket rfl).1
  · refine (shape_of_bracket rfl).2.trans ?_
    rw [again.1]
    show some (bracket, KeptParams.extrasOf inside ++ _) = _
    rw [kept, ← written]

/-- A list with a bracket at its end. Where nothing is left outside of it, it is read as
    a list that is all in the bracket. -/
theorem settles_group {bracket : GroupStyle}
    (positional : (KeptParams.ofClass c).style = .positional)
    (ends : (KeptParams.ofClass c).group = some bracket) :
    ∃ inside, group = some (bracket, inside) ∧
      (outside ≠ [] → Settles style c outside group
        (.ofRead c.fieldNames lead rest .positional outside group)) ∧
      (outside = [] →
        Settles style c outside group
          (.ofRead c.fieldNames lead rest (CtorParts.listStyle bracket) inside none)) := by
  obtain ⟨nodup, all⟩ := @names_ofClass c style valid
  obtain ⟨shape, behind⟩ := @shape_of_positional (ConstructorPlan.ofClass style c) positional
  rw [show (ConstructorPlan.ofClass style c).kept.group = some bracket from ends] at behind
  rw [shape] at plain
  rw [behind] at grouped
  obtain ⟨inside, rfl, inner⟩ := exists_inside grouped
  obtain ⟨extras', same, written, kept, bound⟩ := KeptParams.read_written
    (fun param member => readable.extras param (List.mem_append_left _ member))
    (fun name form member => sound name form (List.mem_append_left _ member)) plain
  obtain ⟨groupExtras', same', written', kept', bound'⟩ := KeptParams.read_written
    (fun param member => readable.extras param (List.mem_append_right _ member))
    (fun name form member => sound name form (List.mem_append_right _ member)) inner
  have read : (outside ++ inside).filterMap FieldParam.ofText? =
      KeptParams.paramsOf
        ((ConstructorPlan.ofClass style c).plain ++ (ConstructorPlan.ofClass style c).grouped) := by
    rw [List.filterMap_append, bound, bound', KeptParams.paramsOf, KeptParams.paramsOf,
      KeptParams.paramsOf, List.map_append]
  refine ⟨inside, rfl, ?_, ?_⟩
  · intro filled
    have again := @forms_again c style
        (.ofRead c.fieldNames lead rest .positional outside (some (bracket, inside)))
      positional.symm ends.symm (contains_boundOf valid bound') fun name form member =>
        KeptParams.lookup_written nodup all read member
    refine ⟨?_, ?_, ?_⟩
    · show List.Forall₂ Reindents _ (KeptParams.extrasOf outside ++ KeptParams.extrasOf inside)
      rw [kept, kept']
      exact List.rel_append same same'
    · show KeptParams.extrasOf outside ++ KeptParams.textsOf _ = outside
      rw [kept, again.1, ← written]
    · show some (bracket, KeptParams.extrasOf inside ++ KeptParams.textsOf _) = _
      rw [kept', again.2, ← written']
  · rintro rfl
    obtain ⟨rfl, unwritten⟩ := List.append_eq_nil_iff.mp written.symm
    have noExtras : (KeptParams.ofClass c).extras = [] := List.forall₂_nil_right_iff.mp same
    have again := @forms_inside c style inside lead rest valid bracket ends
        (List.map_eq_nil_iff.mp unwritten) read
    refine ⟨?_, ?_, ?_⟩
    · rw [noExtras]
      show List.Forall₂ Reindents _ (KeptParams.extrasOf inside ++ [])
      rw [kept', List.append_nil]
      exact same'
    · exact (shape_of_bracket rfl).1
    · refine (shape_of_bracket rfl).2.trans ?_
      rw [again]
      show some (bracket, KeptParams.extrasOf inside ++ _) = _
      rw [kept', ← written']

end Cases

/-- What is kept of the list that was written is settled. -/
theorem settles_read {ctor : Constructor} (valid : c.isValid) (found : c.ctor = some ctor)
    (complete : ctor.lastLine.isNone = false) (readable : (KeptParams.ofClass c).IsReadable)
    (sound : KeptParams.AreSound
      ((ConstructorPlan.ofClass style c).plain ++ (ConstructorPlan.ofClass style c).grouped))
    {outside : List Text} {group : Option (GroupStyle × List Text)}
    (plain : List.Forall₂ Reindents (ConstructorPlan.ofClass style c).outside outside)
    (grouped : Option.Rel (fun a b => a.1 = b.1 ∧ List.Forall₂ Reindents a.2 b.2)
      (ConstructorPlan.ofClass style c).group group)
    {parts : CtorParts} (read : (parts.style, parts.params) = CtorParts.readOf outside group) :
    Settles style c outside group
      (.ofRead c.fieldNames parts.lead parts.rest parts.style parts.params.1 parts.params.2) := by
  have settled : ∀ {style' params group'}, CtorParts.readOf outside group =
      (style', params, group') →
      Settles style c outside group
        (.ofRead c.fieldNames parts.lead parts.rest style' params group') →
        Settles style c outside group
          (.ofRead c.fieldNames parts.lead parts.rest parts.style parts.params.1
            parts.params.2) := by
    intro style' params group' same settles
    rw [same] at read
    obtain ⟨rfl, inner⟩ := Prod.mk.inj read
    rwa [inner]
  have inBracket : ∀ bracket, (KeptParams.ofClass c).style = CtorParts.listStyle bracket →
      Settles style c outside group
      (.ofRead c.fieldNames parts.lead parts.rest parts.style parts.params.1 parts.params.2) := by
    intro bracket style'
    obtain ⟨old, group', -⟩ := kept_of_complete found complete
    have other : (KeptParams.ofConstructor c ctor).style ≠ .positional := by
      rw [← old, style']
      cases bracket <;> simp [CtorParts.listStyle]
    have alone : (KeptParams.ofClass c).group = none := by rw [group', group_eq_none_of_style other]
    obtain ⟨rfl, inside, rfl, settles⟩ :=
      settles_bracket valid readable sound plain grouped style' alone
      (group_of_none found complete alone)
    exact settled rfl settles
  cases style' : (KeptParams.ofClass c).style with
  | named => exact inBracket .named style'
  | optional => exact inBracket .optional style'
  | positional =>
      cases bracket : (KeptParams.ofClass c).group with
      | none =>
          obtain ⟨rfl, settles⟩ := settles_plain valid readable sound plain grouped style' bracket
            (group_of_none found complete bracket)
          exact settled rfl settles
      | some bracket' =>
          obtain ⟨inside, rfl, some, none⟩ :=
            settles_group valid readable sound plain grouped style' bracket
          cases outside with
          | nil => exact settled rfl (none rfl)
          | cons param more => exact settled rfl (some (by simp))

/-- A widget that passes its key passes it in the new layout as well, so what is kept of
    the constructor that was written is what is read of it. -/
theorem ofClass_again {ctor : Constructor} (found : c.ctor = some ctor)
    (complete : ctor.lastLine.isSome) {t : Text} :
    let parts := CtorParts.ofText t c.name
    let kept := KeptParams.ofRead c.fieldNames parts.lead parts.rest parts.style parts.params.1
      parts.params.2
    List.Forall₂ Reindents ((KeptParams.ofClass c).extras ++ (KeptParams.ofClass c).groupExtras)
        (kept.extras ++ kept.groupExtras) →
      Reindents (KeptParams.ofClass c).rest kept.rest →
        KeptParams.ofClass { c with ctor := some { ctor with text := t } } = kept := by
  intro parts kept extras rest
  have base : KeptParams.ofClass { c with ctor := some { ctor with text := t } } =
      if c.header.isWidget then kept.withKey else kept := by
    simp only [KeptParams.ofClass, complete, ↓reduceIte]
    rfl
  rw [base]
  split
  · rename_i widget
    have passed : (KeptParams.ofClass c).KeyPassed := by
      simp only [KeptParams.ofClass, found, complete, widget, ↓reduceIte]
      exact KeptParams.keyPassed_withKey _
    exact KeptParams.withKey_of_keyPassed (passed.reindents extras rest)
  · rfl

end Again

theorem ink_constructorText_congr {s : Surroundings} (blank : s.indent.isBlankText)
    {a b : ClassDecl} (name : a.name = b.name)
    (lead : (ConstructorPlan.ofClass s.style a).kept.lead =
      (ConstructorPlan.ofClass s.style b).kept.lead)
    (list : ((ConstructorPlan.ofClass s.style a).listText s.indent).ink =
      ((ConstructorPlan.ofClass s.style b).listText s.indent).ink)
    (rest : (ConstructorPlan.ofClass s.style a).kept.rest.ink =
      (ConstructorPlan.ofClass s.style b).kept.rest.ink) :
    (constructorText s a).ink = (constructorText s b).ink := by
  rw [constructorText, constructorText, Text.ink_indentBlock blank, Text.ink_indentBlock blank,
    ConstructorPlan.ink_text, ConstructorPlan.ink_text, rest, ConstructorPlan.headText,
    ConstructorPlan.headText]
  simp only [Text.ink_append, list, lead, name]

theorem isBlankText_of_indent? {style : Style} {indent : Text}
    (styled : style.indent? = .ok indent) :
    indent.isBlankText := by
  simp only [Style.indent?] at styled
  split at styled
  · rw [← Except.ok.inj styled, Text.isBlankText, List.all_replicate]
    split <;> rfl
  · cases styled

theorem notMem_of_indent? {style : Style} {indent : Text} (styled : style.indent? = .ok indent) :
    '\n' ∉ indent := by
  simp only [Style.indent?] at styled
  split at styled
  · simp [← Except.ok.inj styled, List.mem_replicate]
  · cases styled

/-- For a class with the constructor that was written for it, a constructor with the same
    ink is written, and so nothing is scheduled. -/
theorem writeMember_constructor_again {text : Text} {c : ClassDecl} {ctor : Constructor}
    (member : c ∈ scan text) (valid : c.isValid)
    (names : ∀ name ∈ c.fieldNames, ∀ d ∈ name, isWordChar d) (found : c.ctor = some ctor)
    (complete : ctor.lastLine.isSome) (nested : (CtorParts.ofText ctor.text c.name).WellNested)
    {s : Surroundings} (styled : s.style.indent? = .ok s.indent) :
    let again : ClassDecl := { c with ctor := some { ctor with text := constructorText s c } }
    Text.sameInk (constructorText s c) (constructorText s again) ∧
      ∀ d : Draft, d.decl = again → writeMember s d .constructor = d := by
  intro again
  have blank := isBlankText_of_indent? styled
  have closed : ctor.lastLine.isNone = false := by
    rw [Option.isNone_eq_false_iff]
    exact complete
  have readable := KeptParams.isReadable_ofClass member found complete nested
  have sound := areSound_ofClass s.style readable fun name inside => by
    obtain ⟨f, field, rfl⟩ := List.mem_map.mp inside
    exact ⟨name_ne_nil_of_mem_scan member f field, names f.name inside⟩
  obtain ⟨outside, group, plain, grouped, lead, read, rest⟩ :=
    read_constructorText member valid found closed blank readable sound
  have settles := settles_read valid found closed readable sound plain grouped read
  have kept := @ofClass_again c ctor found complete (constructorText s c) settles.extras rest
  have plan : ConstructorPlan.ofClass s.style again =
      .ofKept s.style c.fields (KeptParams.ofClass again) := rfl
  rw [← kept] at settles
  have list : ((ConstructorPlan.ofClass s.style again).listText s.indent).ink =
      ((ConstructorPlan.ofClass s.style c).listText s.indent).ink := by
    have second : again.ctor = some { ctor with text := constructorText s c } := rfl
    rw [listText_eq_group s.style (show again.isValid from valid) second closed,
      listText_eq_group s.style valid found closed, plan, settles.outside, settles.group]
    exact CtorParts.ink_listOf plain grouped
  have same : Text.ink (constructorText s again) = Text.ink (constructorText s c) := by
    refine ink_constructorText_congr blank rfl ?_ list ?_
    · rw [plan, kept]
      exact lead
    · rw [plan, kept]
      exact rest.ink_eq
  have stays : Text.sameInk (constructorText s c) (constructorText s again) := by
    rw [Text.sameInk, same, beq_self_eq_true]
  refine ⟨stays, ?_⟩
  intro d here
  obtain ⟨last, ends⟩ := Option.isSome_iff_exists.mp complete
  have there : d.decl.ctor = some ⟨constructorText s c, ctor.firstLine, some last⟩ := by
    rw [here, ← ends]
  rw [writeMember, Draft.putConstructor, there]
  dsimp only
  rw [Draft.replace, if_pos]
  rw [here]
  exact stays

/-- A parameter over two lines and a group: the group comes to lines of its own, and then
    nothing is left to write. -/
theorem writeMember_constructor_again_grouped :
    let text : Text :=
      "class A \x7b\n  final int a;\n  final int b;\n  A(int\n  x, this.a, \x7bthis.b = 1\x7d);\n\x7d"
    let ctor : Constructor :=
      { text := "  A(int\n  x, this.a, \x7bthis.b = 1\x7d);", firstLine := 4, lastLine := some 5 }
    let c : ClassDecl :=
      { header := .parse "class A \x7b", firstLine := 1, lastLine := some 6, lines := text.lines
        fields := [{ rawType := "int", key := "a", name := "a", line := 2 },
          { rawType := "int", key := "b", name := "b", line := 3 }]
        ctor := some ctor }
    let s : Surroundings := { style := {}, indent := "  ", flutter := false }
    let again : ClassDecl := { c with ctor := some { ctor with text := constructorText s c } }
    c ∈ scan text ∧ constructorText s c =
      "  A(\n    int\n    x,\n    this.a, \x7b\n    this.b = 1,\n  \x7d);".toList ∧
      Text.sameInk ctor.text (constructorText s c) = false ∧
      Text.sameInk (constructorText s c) (constructorText s again) ∧
      writeMember s { decl := again } .constructor = { decl := again } := by
  intro text ctor c s again
  obtain ⟨member, shown, apart, params, valid, names⟩ : c ∈ scan text ∧
      constructorText s c =
        "  A(\n    int\n    x,\n    this.a, \x7b\n    this.b = 1,\n  \x7d);".toList ∧
      Text.sameInk ctor.text (constructorText s c) = false ∧
      (CtorParts.ofText ctor.text c.name).params =
        (["int\n  x".toList, "this.a".toList], some (.named, ["this.b = 1".toList])) ∧
      c.isValid ∧ ∀ name ∈ c.fieldNames, ∀ d ∈ name, isWordChar d := by
    decide +kernel
  have nested : (CtorParts.ofText ctor.text c.name).WellNested := by
    refine ⟨?_, ?_, ?_⟩
    · rw [params]
      decide
    · rw [params]
      rintro group ⟨⟩
      decide
    · rw [params]
      intro _
      decide
  obtain ⟨same, stays⟩ := writeMember_constructor_again member valid names rfl rfl nested
    (show s.style.indent? = .ok s.indent from rfl)
  exact ⟨member, shown, apart, same, stays _ rfl⟩

end ValueClass.Dart
