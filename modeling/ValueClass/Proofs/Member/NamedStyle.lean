import ValueClass.Proofs.Member.CtorText
import ValueClass.Proofs.Member.ParamText
import ValueClass.Proofs.Member.Positional

/-! # Parameters by name

Whether a field is passed by name is read off the start of a constructor, and
whether it is taken by name off its brackets. The two readings agree for every list
that does not start with a brace; for a list in braces they agree just when the brace
follows the parenthesis at once.
-/

namespace ValueClass

theorem Text.append_feed_unlines (before : Text) {ls : List Text} (filled : ls ≠ []) :
    before ++ "\n".toList ++ Text.unlines ls = before ++ ls.flatMap fun line => '\n' :: line := by
  have feed : "\n".toList ++ Text.unlines ls = ls.flatMap fun line => '\n' :: line := by
    induction ls with
    | nil => exact absurd rfl filled
    | cons line rest ih =>
        cases rest with
        | nil => simp [Text.unlines_singleton]
        | cons next others =>
            rw [Text.unlines_cons_cons, List.flatMap_cons, ← ih (by simp)]
            rfl
  rw [List.append_assoc, feed]

namespace Dart

/-! ## A list as it is written -/

namespace ConstructorPlan

/-- Some parameters, each on a line of its own. -/
def rows (indent : Text) (params : List Text) : Text :=
  (paramLines indent params).flatMap fun line => '\n' :: line

/-- A parameter list: parameters outside of brackets, and brackets behind them. -/
def listOf (indent : Text) (outside : List Text) : Option (GroupStyle × List Text) → Text
  | none => "(" ++ rows indent outside ++ "\n)"
  | some (group, inside) =>
    "(" ++ rows indent outside ++ Text.when (!outside.isEmpty) " " ++ group.brackets.1 ++
      rows indent inside ++ "\n" ++ group.brackets.2 ++ ")"

/-- The bracket of the list, with the parameters that are taken over and those of
    fields in it. -/
def bracket? (plan : ConstructorPlan) : Option (GroupStyle × List Text × List (Text × ParamForm)) :=
  match plan.kept.style with
  | .named => some (.named, plan.kept.extras, plan.plain)
  | .optional => some (.optional, plan.kept.extras, plan.plain)
  | .positional => plan.kept.group.map fun group => (group, plan.kept.groupExtras, plan.grouped)

def outside (plan : ConstructorPlan) : List Text :=
  match plan.kept.style with
  | .positional => plan.plainTexts
  | _ => []

/-- The list puts the parameter of a field in braces. -/
def TakesByName (plan : ConstructorPlan) (name : Text) : Prop :=
  ∃ extras params, plan.bracket? = some (.named, extras, params) ∧ name ∈ params.map (·.1)

theorem flatMap_addToLast {ls : List Text} (filled : ls ≠ []) (addition : Text) :
    ((addToLast addition ls).flatMap fun line => '\n' :: line) =
      (ls.flatMap fun line => '\n' :: line) ++ addition := by
  induction ls with
  | nil => exact absurd rfl filled
  | cons line rest ih =>
      cases rest with
      | nil => simp [addToLast]
      | cons next others =>
          have step := ih (by simp)
          have first : addToLast addition (line :: next :: others) =
              line :: addToLast addition (next :: others) := rfl
          rw [first, List.flatMap_cons, step, ← List.append_assoc]
          rfl

theorem listText_of_group {plan : ConstructorPlan} {group : GroupStyle}
    (found : plan.kept.group = some group) (filled : plan.plainTexts ++ plan.groupTexts ≠ [])
    (indent : Text) :
    plan.listText indent = listOf indent plan.plainTexts (some (group, plan.groupTexts)) := by
  simp only [listText, found, listOf]
  cases plain : plan.plainTexts with
  | nil =>
      have grouped : paramLines indent plan.groupTexts ≠ [] := by
        simpa [plain, paramLines] using filled
      simp only [paramLines, List.map_nil, addToLast, List.nil_append, List.isEmpty_nil, ↓reduceIte,
        Bool.not_true, Text.when, Bool.false_eq_true, rows, List.flatMap_nil, List.append_nil]
      have lines := Text.append_feed_unlines ("(".toList ++ group.brackets.1) grouped
      rw [paramLines] at lines
      rw [lines]
  | cons first rest =>
      have lines : paramLines indent (first :: rest) ≠ [] := by simp [paramLines]
      have whole : addToLast (" ".toList ++ group.brackets.1) (paramLines indent (first :: rest)) ++
          paramLines indent plan.groupTexts ≠ [] := by
        cases rest <;> simp [paramLines, addToLast]
      have shown : (paramLines indent (first :: rest)).isEmpty = false := by simp [paramLines]
      rw [shown]
      simp only [Bool.false_eq_true, ↓reduceIte, List.isEmpty_cons, Bool.not_false, Text.when]
      rw [Text.append_feed_unlines _ whole, List.flatMap_append, flatMap_addToLast lines]
      simp [rows]

theorem listText_of_style {plan : ConstructorPlan} (alone : plan.kept.group = none)
    (filled : plan.plainTexts ≠ []) (indent : Text) :
    plan.listText indent = match plan.kept.style with
      | .positional => listOf indent plan.plainTexts none
      | .named => listOf indent [] (some (.named, plan.plainTexts))
      | .optional => listOf indent [] (some (.optional, plan.plainTexts)) := by
  have lines : paramLines indent plan.plainTexts ≠ [] := by simpa [paramLines] using filled
  have shown : (paramLines indent plan.plainTexts).isEmpty = false := by simpa using lines
  simp only [listText, alone, shown, Bool.false_eq_true, ↓reduceIte]
  rw [Text.append_feed_unlines _ lines]
  cases plan.kept.style <;>
    simp [styleBrackets, listOf, rows, paramLines, Text.when, GroupStyle.brackets]

end ConstructorPlan

section Written

variable {c : ClassDecl} {ctor : Constructor} (style : Style)

theorem group_eq_none_of_style (h : (KeptParams.ofConstructor c ctor).style ≠ .positional) :
    (KeptParams.ofConstructor c ctor).group = none := by
  have style : (CtorParts.ofText ctor.text c.name).style ≠ .positional := h
  simp only [KeptParams.ofConstructor, CtorParts.params]
  cases bracket : (CtorParts.ofText ctor.text c.name).style with
  | positional => exact absurd bracket style
  | named | optional => rfl

/-- The list that is written for a valid class shows its bracket and what stands
    inside and outside of it. -/
theorem listText_eq_listOf (valid : c.isValid) (found : c.ctor = some ctor)
    (complete : ctor.lastLine.isNone = false) (indent : Text) :
    let plan := ConstructorPlan.ofClass style c
    plan.listText indent = ConstructorPlan.listOf indent plan.outside
      (plan.bracket?.map fun (group, extras, params) =>
        (group, extras ++ params.map fun (name, form) => form.text name)) := by
  intro plan
  obtain ⟨nonempty, -⟩ := distinct_of_isValid valid
  obtain ⟨bracket, group, fields⟩ := kept_of_complete found complete
  have kept : plan.kept = KeptParams.ofClass c := rfl
  have names := plain_names style (c := c)
  have groupNames := grouped_names style (c := c)
  cases split : (KeptParams.ofConstructor c ctor).group with
  | none =>
      have all : plan.plain.map (·.1) = c.fieldNames := by
        rw [names, fields, groupFields_eq_nil split]
        simp
      have filled : plan.plainTexts ≠ [] := by
        intro none
        have : plan.plain = [] := by simpa using (List.append_eq_nil_iff.mp none).2
        rw [this] at all
        exact nonempty all.symm
      have alone : plan.kept.group = none := by rw [kept, group, split]
      rw [ConstructorPlan.listText_of_style alone filled]
      cases h : plan.kept.style <;>
        simp [ConstructorPlan.outside, ConstructorPlan.bracket?, h, alone,
          ConstructorPlan.plainTexts]
  | some grouping =>
      have positional : plan.kept.style = .positional := by
        rw [kept, bracket]
        by_contra other
        rw [group_eq_none_of_style other] at split
        cases split
      have grouped : plan.kept.group = some grouping := by rw [kept, group, split]
      have filled : plan.plainTexts ++ plan.groupTexts ≠ [] := by
        intro none
        rw [List.append_eq_nil_iff] at none
        have plain : plan.plain = [] := by simpa using (List.append_eq_nil_iff.mp none.1).2
        have inside : plan.grouped = [] := by simpa using (List.append_eq_nil_iff.mp none.2).2
        obtain ⟨name, member⟩ := List.exists_mem_of_ne_nil _ nonempty
        rw [show (ConstructorPlan.ofClass style c).plain = [] from plain] at names
        rw [show (ConstructorPlan.ofClass style c).grouped = [] from inside] at groupNames
        have out := (List.filter_eq_nil_iff.mp names.symm) name member
        have into := (List.filter_eq_nil_iff.mp groupNames.symm) name member
        simp_all
      rw [ConstructorPlan.listText_of_group grouped filled]
      simp [ConstructorPlan.outside, ConstructorPlan.bracket?, positional, grouped,
        ConstructorPlan.groupTexts]

/-- Which fields the written list takes by name. -/
theorem takesByName_iff (found : c.ctor = some ctor) (complete : ctor.lastLine.isNone = false)
    {name : Text} (member : name ∈ c.fieldNames) :
    (ConstructorPlan.ofClass style c).TakesByName name ↔
      (KeptParams.ofConstructor c ctor).style = .named ∨
        (KeptParams.ofConstructor c ctor).group = some .named ∧
          name ∈ (KeptParams.ofConstructor c ctor).groupFields := by
  obtain ⟨bracket, group, fields⟩ := kept_of_complete found complete
  have plain : (∃ form, (name, form) ∈ (ConstructorPlan.ofClass style c).plain) ↔
      name ∉ (KeptParams.ofConstructor c ctor).groupFields := by
    have : name ∈ (ConstructorPlan.ofClass style c).plain.map (·.1) ↔
        name ∉ (KeptParams.ofConstructor c ctor).groupFields := by
      rw [plain_names, fields]
      simp [member]
    simpa using this
  have grouped : (∃ form, (name, form) ∈ (ConstructorPlan.ofClass style c).grouped) ↔
      name ∈ (KeptParams.ofConstructor c ctor).groupFields := by
    have : name ∈ (ConstructorPlan.ofClass style c).grouped.map (·.1) ↔
        name ∈ (KeptParams.ofConstructor c ctor).groupFields := by
      rw [grouped_names, fields]
      simp [member]
    simpa using this
  rw [ConstructorPlan.TakesByName, ConstructorPlan.bracket?,
    show (ConstructorPlan.ofClass style c).kept = KeptParams.ofClass c from rfl, bracket, group]
  cases h : (KeptParams.ofConstructor c ctor).style with
  | named =>
      rw [groupFields_eq_nil (group_eq_none_of_named h)] at plain
      simpa using plain
  | optional =>
      rw [group_eq_none_of_style (c := c) (by rw [h]; simp)]
      simp
  | positional =>
      cases (KeptParams.ofConstructor c ctor).group with
      | none => simp
      | some grouping => cases grouping <;> simp [grouped]

/-! ## The two readings -/

/-- When the start of a constructor and its brackets say the same: a list in braces
    looks named; before a named group it looks so only if all fields are in the group;
    any other list does not. -/
def ClassDecl.ReadsAlike (c : ClassDecl) (ctor : Constructor) : Prop :=
  match (KeptParams.ofConstructor c ctor).style, (KeptParams.ofConstructor c ctor).group with
  | .named, _ => c.hasNamedConstructor
  | _, some .named =>
    c.hasNamedConstructor → ∀ name ∈ c.fieldNames,
      name ∈ (KeptParams.ofConstructor c ctor).groupFields
  | _, _ => ¬ c.hasNamedConstructor

theorem named_iff_takesByName_iff (valid : c.isValid) (found : c.ctor = some ctor)
    (complete : ctor.lastLine.isNone = false) :
    (∀ name ∈ c.fieldNames,
        name ∈ c.namedFields ↔ (ConstructorPlan.ofClass style c).TakesByName name) ↔
          c.ReadsAlike ctor := by
  obtain ⟨nonempty, -⟩ := distinct_of_isValid valid
  obtain ⟨one, field⟩ := List.exists_mem_of_ne_nil _ nonempty
  have reading : (∀ name ∈ c.fieldNames,
        name ∈ c.namedFields ↔ (ConstructorPlan.ofClass style c).TakesByName name) ↔
      ∀ name ∈ c.fieldNames, name ∈ c.namedFields ↔
        (KeptParams.ofConstructor c ctor).style = .named ∨
          (KeptParams.ofConstructor c ctor).group = some .named ∧
            name ∈ (KeptParams.ofConstructor c ctor).groupFields :=
    forall₂_congr fun name member => by rw [takesByName_iff style found complete member]
  rw [reading, ClassDecl.ReadsAlike]
  by_cases named : c.hasNamedConstructor
  · rw [namedFields_eq_fieldNames named]
    cases h : (KeptParams.ofConstructor c ctor).style with
    | named => simp [named]
    | optional =>
        rw [group_eq_none_of_style (c := c) (by rw [h]; simp)]
        simpa [named] using ⟨one, field⟩
    | positional =>
        cases (KeptParams.ofConstructor c ctor).group with
        | none => simpa [named] using ⟨one, field⟩
        | some grouping =>
            cases grouping with
            | named => simp +contextual [named]
            | optional => simpa [named] using ⟨one, field⟩
  · have members : ∀ name ∈ c.fieldNames, name ∈ c.namedFields ↔
        (KeptParams.ofConstructor c ctor).group = some .named ∧
          name ∈ (KeptParams.ofConstructor c ctor).groupFields :=
      fun name member => mem_namedFields_iff found named member
    cases h : (KeptParams.ofConstructor c ctor).style with
    | named =>
        have alone := group_eq_none_of_named h
        refine iff_of_false ?_ named
        intro all
        have := (all one field).mpr (.inl rfl)
        rw [members one field, alone] at this
        cases this.1
    | optional =>
        rw [group_eq_none_of_style (c := c) (by rw [h]; simp)] at members ⊢
        simpa [named] using members
    | positional =>
        have other : ∀ name ∈ c.fieldNames, name ∈ c.namedFields ↔
            ParamStyle.positional = .named ∨ (KeptParams.ofConstructor c ctor).group = some .named ∧
              name ∈ (KeptParams.ofConstructor c ctor).groupFields := by
          simpa using members
        cases split : (KeptParams.ofConstructor c ctor).group with
        | none => simpa [named, split] using other
        | some grouping => cases grouping <;> simpa [named, split] using other

end Written

/-! ## Layouts -/

/-- What is cut off before a closing bracket stands at the front. -/
theorem CtorParts.cutAtClose_prefix {depth : Nat} {t inner rest : Text}
    (h : cutAtClose depth t = some (inner, rest)) : inner <+: t := by
  induction t generalizing depth inner with
  | nil => cases h
  | cons d tail ih =>
      have step : ∀ deep, ((cutAtClose deep tail).map fun p => (d :: p.1, p.2)) =
          some (inner, rest) → inner <+: d :: tail := by
        intro deep found
        obtain ⟨⟨front, behind⟩, cut, same⟩ := Option.map_eq_some_iff.mp found
        cases same
        exact List.cons_prefix_cons.mpr ⟨rfl, ih cut⟩
      rw [cutAtClose] at h
      split at h
      · exact step _ h
      · split at h
        · split at h
          · cases h
            exact List.nil_prefix
          · exact step _ h
        · exact step _ h

section Layout

variable {c : ClassDecl} {ctor : Constructor} {lead after : Text}

theorem startsWith_brace_of_style (isLead : IsLead lead) (label : IsLabel c.name)
    (split : ctor.text = lead ++ (c.name ++ '(' :: after))
    (named : (KeptParams.ofConstructor c ctor).style = .named) :
    ∃ rest, after.trimStart = '\x7b' :: rest := by
  have style : (CtorParts.ofText ctor.text c.name).style = .named := named
  rw [CtorParts.ofText, split, cut?_ctor isLead label] at style
  dsimp only at style
  have front : ∃ behind, after = ((CtorParts.cutAtClose 1 after).getD (after.dropLast, [])).1 ++
      behind := by
    cases cut : CtorParts.cutAtClose 1 after with
    | none =>
        cases empty : after with
        | nil => exact ⟨[], rfl⟩
        | cons d rest => exact ⟨[(d :: rest).getLast (by simp)],
            (List.dropLast_append_getLast _).symm⟩
    | some parts =>
        obtain ⟨behind, whole⟩ := CtorParts.cutAtClose_prefix cut
        exact ⟨behind, whole.symm⟩
  obtain ⟨behind, whole⟩ := front
  generalize ((CtorParts.cutAtClose 1 after).getD (after.dropLast, [])).1 = inner at style whole
  split at style
  · rename_i braces
    simp only [Bool.and_eq_true, Text.startsWith, List.isPrefixOf_iff_prefix] at braces
    obtain ⟨rest, starts⟩ := braces.1
    obtain ⟨blanks, blank, inner_split⟩ := Text.trimStart_split inner
    obtain ⟨last, -, trimmed⟩ := Text.trimEnd_append_blank inner.trimStart
    rw [show inner.trimStart.trimEnd = inner.trim from rfl, ← starts] at trimmed
    refine ⟨rest ++ last ++ behind, ?_⟩
    rw [whole, inner_split, List.append_assoc, Text.trimStart_append_of_blank blank, trimmed]
    exact Text.trimStart_cons (by decide) _
  · split at style <;> cases style

/-- A list that does not start with a brace is read alike. -/
theorem readsAlike_of_other (isLead : IsLead lead) (label : IsLabel c.name)
    (other : ¬ "const".toList <+: c.name) (found : c.ctor = some ctor)
    (split : ctor.text = lead ++ (c.name ++ '(' :: after))
    (first : ∀ rest, after.trimStart ≠ '\x7b' :: rest) : c.ReadsAlike ctor := by
  have plain : ¬ c.hasNamedConstructor := by
    rw [hasNamedConstructor_iff isLead label found split rfl other]
    rintro ⟨rest, rfl⟩
    exact first rest (Text.trimStart_cons (by decide) _)
  rw [ClassDecl.ReadsAlike]
  cases h : (KeptParams.ofConstructor c ctor).style with
  | named =>
      obtain ⟨rest, same⟩ := startsWith_brace_of_style isLead label split h
      exact absurd same (first rest)
  | positional | optional =>
      cases (KeptParams.ofConstructor c ctor).group with
      | none => exact plain
      | some grouping =>
          cases grouping with
          | named => exact fun named => absurd named plain
          | optional => exact plain

/-- A list in braces has the named style, with blanks around the braces or without. -/
theorem style_of_braces (isLead : IsLead lead) (label : IsLabel c.name)
    {gap params back rest : Text}
    (split : ctor.text = lead ++ (c.name ++ '(' ::
      (gap ++ '\x7b' :: (params ++ '\x7d' :: (back ++ ')' :: rest)))))
    (blankGap : gap.isBlankText) (blankBack : back.isBlankText)
    (balanced : CtorParts.Balanced 2 params 2) :
    (KeptParams.ofConstructor c ctor).style = .named := by
  have whole : CtorParts.Balanced 1 (gap ++ ('\x7b' :: (params ++ '\x7d' :: back))) 1 := by
    refine (CtorParts.balanced_of_blank blankGap 1).append ?_
    show CtorParts.Balanced 2 (params ++ '\x7d' :: back) 1
    refine balanced.append ?_
    show 2 ≤ 2 ∧ CtorParts.Balanced 1 back 1
    exact ⟨Nat.le_refl _, CtorParts.balanced_of_blank blankBack 1⟩
  have cut : CtorParts.cutAtClose 1 (gap ++ '\x7b' :: (params ++ '\x7d' :: (back ++ ')' :: rest))) =
      some (gap ++ ('\x7b' :: (params ++ '\x7d' :: back)), rest) := by
    have := CtorParts.cutAtClose_append whole (')' :: rest)
    have last : CtorParts.cutAtClose 1 (')' :: rest) = some ([], rest) := rfl
    rw [last] at this
    simpa using this
  have inner : Text.trim (gap ++ ('\x7b' :: (params ++ '\x7d' :: back))) =
      '\x7b' :: (params ++ ['\x7d']) := by
    have shape : gap ++ ('\x7b' :: (params ++ '\x7d' :: back)) =
        gap ++ ('\x7b' :: (params ++ ['\x7d'])) ++ back := by simp
    rw [shape]
    apply Text.trim_eq blankGap blankBack
    · intro d tail same
      cases same
      decide
    · intro d tail same
      have := congrArg List.getLast? same
      rw [List.getLast?_concat, ← List.cons_append, List.getLast?_concat, Option.some.injEq] at this
      rw [← this]
      decide
  show (CtorParts.ofText ctor.text c.name).style = .named
  rw [CtorParts.ofText, split, cut?_ctor isLead label]
  dsimp only
  rw [cut, Option.getD_some, inner, if_pos]
  have ends : Text.endsWith ('\x7b' :: (params ++ ['\x7d'])) "\x7d".toList := by
    rw [Text.endsWith, List.isSuffixOf_iff_suffix]
    exact ⟨'\x7b' :: params, rfl⟩
  rw [ends]
  rfl

theorem readsAlike_iff_of_braces (isLead : IsLead lead) (label : IsLabel c.name)
    (other : ¬ "const".toList <+: c.name) (found : c.ctor = some ctor)
    {gap params back rest : Text}
    (split : ctor.text = lead ++ (c.name ++ '(' ::
      (gap ++ '\x7b' :: (params ++ '\x7d' :: (back ++ ')' :: rest)))))
    (blankGap : gap.isBlankText) (blankBack : back.isBlankText)
    (balanced : CtorParts.Balanced 2 params 2) : c.ReadsAlike ctor ↔ gap = [] := by
  rw [ClassDecl.ReadsAlike, style_of_braces isLead label split blankGap blankBack balanced]
  dsimp only
  rw [hasNamedConstructor_iff isLead label found split rfl other]
  cases gap with
  | nil => simp
  | cons d tail =>
      have blank : isBlank d := by
        rw [Text.isBlankText, List.all_cons, Bool.and_eq_true] at blankGap
        exact blankGap.1
      have apart : d ≠ '\x7b' := ne_of_isBlank blank (by decide)
      simp [apart]

end Layout

/-- For a valid class with a constructor, the fields that `copyWith` and `fromMap` pass
    by name are those that the written constructor puts in braces, exactly when the
    old constructor reads alike. It does so in every layout of a list that does not
    start with a brace; a list in braces reads alike only if the brace follows the
    parenthesis at once. -/
theorem namedFields_iff_takesByName {text : Text} {c : ClassDecl} {ctor : Constructor}
    (member : c ∈ scan text) (valid : c.isValid) (found : c.ctor = some ctor)
    (complete : ctor.lastLine.isNone = false) (style : Style) (indent : Text) :
    let plan := ConstructorPlan.ofClass style c
    plan.listText indent = ConstructorPlan.listOf indent plan.outside
        (plan.bracket?.map fun (group, extras, params) =>
          (group, extras ++ params.map fun (name, form) => form.text name)) ∧
      ((∀ name ∈ c.fieldNames, name ∈ c.namedFields ↔ plan.TakesByName name) ↔ c.ReadsAlike ctor) ∧
      (c.ReadsAlike ctor → ∀ f ∈ c.fields, ∀ value,
        (plan.TakesByName f.name →
          Method.argument c.namedFields f.name value = f.name ++ ": " ++ value) ∧
        (¬ plan.TakesByName f.name → Method.argument c.namedFields f.name value = value)) ∧
      (¬ "const".toList <+: c.name →
        ∃ lead after, IsLead lead ∧ ctor.text = lead ++ (c.name ++ '(' :: after) ∧
          ((∀ rest, Text.trimStart after ≠ '\x7b' :: rest) → c.ReadsAlike ctor) ∧
          ∀ gap params back rest : Text,
            after = gap ++ '\x7b' :: (params ++ '\x7d' :: (back ++ ')' :: rest)) →
            gap.isBlankText → back.isBlankText → CtorParts.Balanced 2 params 2 →
            (c.ReadsAlike ctor ↔ gap = [])) := by
  intro plan
  have agree := named_iff_takesByName_iff style valid found complete
  refine ⟨listText_eq_listOf style valid found complete indent, agree, ?_, ?_⟩
  · intro alike f field value
    have named := agree.mpr alike f.name (List.mem_map_of_mem field)
    rw [← named]
    constructor <;> intro h <;> simp [Method.argument, h]
  · intro other
    have label := isLabel_of_mem_scan member
    obtain ⟨lead, after, isLead, split⟩ := ctor_split member found
    refine ⟨lead, after, isLead, split, ?_, ?_⟩
    · exact readsAlike_of_other isLead label other found split
    · rintro gap params back rest rfl blankGap blankBack balanced
      exact readsAlike_iff_of_braces isLead label other found split blankGap blankBack balanced

/-- A blank between parenthesis and brace: the field is taken by name, and passed by
    position. -/
theorem namedFields_iff_takesByName_apart :
    let text : Text := "class A \x7b\n int a;\n A( \x7bthis.a\x7d);\n\x7d"
    let ctor : Constructor := { text := " A( \x7bthis.a\x7d);", firstLine := 3, lastLine := some 3 }
    let c : ClassDecl :=
      { header := .parse "class A \x7b", firstLine := 1, lastLine := some 4, lines := text.lines
        fields := [{ rawType := "int", key := "a", name := "a", line := 2, isFinal := false }]
        ctor := some ctor }
    c ∈ scan text ∧ c.isValid ∧ c.namedFields = [] ∧
      (ConstructorPlan.ofClass {} c).TakesByName "a" ∧
      ¬ c.ReadsAlike ctor := by
  intro text ctor c
  obtain ⟨member, valid, passed, grouped, field⟩ : c ∈ scan text ∧ c.isValid ∧ c.namedFields = [] ∧
      (ConstructorPlan.ofClass {} c).bracket? = some (.named, [], [("a".toList, .required)]) ∧
      "a".toList ∈ c.fieldNames := by
    decide +kernel
  have taken : (ConstructorPlan.ofClass {} c).TakesByName "a" :=
    ⟨[], [("a".toList, .required)], grouped, by decide⟩
  obtain ⟨-, agree, -, -⟩ := namedFields_iff_takesByName member valid rfl rfl {} []
  refine ⟨member, valid, passed, taken, ?_⟩
  intro alike
  have named := (agree.mpr alike "a" field).mpr taken
  rw [passed] at named
  cases named

end Dart

end ValueClass
