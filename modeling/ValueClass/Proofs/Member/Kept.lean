import Mathlib.Data.List.Nodup
import ValueClass.Proofs.Dart.OneLine
import ValueClass.Proofs.Member.ParamList
import ValueClass.Proofs.Member.Segment

/-! # What is taken over

What a constructor takes over from the one that stood in the class is read off its
parameter list: those that bind no field, the bracket, and the default values. It can be
written and read again when the brackets of the parameters are properly nested.
-/

namespace ValueClass.Dart

open Text (Reindents)
open FieldParam (IsParam IsExpression)

/-! ## Written parameters read again -/

theorem ParamForm.opensGroup_text (form : ParamForm) (name : Text) :
    CtorParts.opensGroup (form.text name) = false := by
  cases form <;> rfl

namespace KeptParams

def textsOf (forms : List (Text × ParamForm)) : List Text :=
  forms.map fun (name, form) => form.text name

/-- What is read of the parameters of some fields. -/
def paramsOf (forms : List (Text × ParamForm)) : List FieldParam :=
  forms.map fun (name, form) => ⟨name, form.default?⟩

theorem forall₂_append_left {α β : Type} {R : α → β → Prop} {a b : List α} {c : List β}
    (h : List.Forall₂ R (a ++ b) c) :
    ∃ a' b', c = a' ++ b' ∧ List.Forall₂ R a a' ∧ List.Forall₂ R b b' := by
  induction a generalizing c with
  | nil => exact ⟨[], c, rfl, .nil, h⟩
  | cons x rest ih =>
      cases h with
      | cons here later =>
          obtain ⟨a', b', rfl, first, second⟩ := ih later
          exact ⟨_ :: a', b', rfl, .cons here first, second⟩

theorem forall_of_forall₂ {α β : Type} {R : α → β → Prop} {P : α → Prop} {Q : β → Prop}
    {a : List α} {b : List β} (h : List.Forall₂ R a b) (kept : ∀ x y, R x y → P x → Q y)
    (all : ∀ x ∈ a, P x) : ∀ y ∈ b, Q y := by
  induction h with
  | nil => simp
  | cons here _ ih =>
      intro y member
      rcases List.mem_cons.mp member with rfl | member
      · exact kept _ _ here (all _ (by simp))
      · exact ih (fun x inside => all x (List.mem_cons_of_mem _ inside)) y member

theorem exists_of_forall₂ {α β : Type} {R : α → β → Prop} {P : α → Prop} {Q : β → Prop}
    {a : List α} {b : List β} (h : List.Forall₂ R a b) (kept : ∀ x y, R x y → P x → Q y)
    (some : ∃ x ∈ a, P x) : ∃ y ∈ b, Q y := by
  induction h with
  | nil => simp at some
  | cons here _ ih =>
      obtain ⟨x, member, holds⟩ := some
      rcases List.mem_cons.mp member with rfl | member
      · exact ⟨_, by simp, kept _ _ here holds⟩
      · obtain ⟨y, inside, holds⟩ := ih ⟨x, member, holds⟩
        exact ⟨y, List.mem_cons_of_mem _ inside, holds⟩

theorem isParam_reindents {param param' : Text} (h : Reindents param param')
    (isParam : IsParam param) : IsParam param' := by
  refine ⟨⟨?_, h.trim_eq isParam.trimmed, ?_⟩, ?_⟩
  · rintro rfl
    exact isParam.filled h.eq_nil
  · exact h.passes isParam.whole
  · rw [Text.isNested, h.nestedFrom]
    exact isParam.nested

/-- Parameters that bind no field, as they are taken over. -/
def AreExtras (params : List Text) : Prop :=
  ∀ param ∈ params, IsParam param ∧ FieldParam.ofText? param = none

theorem AreExtras.reindents {params params' : List Text} (h : List.Forall₂ Reindents params params')
    (extras : AreExtras params) : AreExtras params' :=
  forall_of_forall₂ h (fun _ _ same extra =>
    ⟨isParam_reindents same extra.1, by rw [FieldParam.ofText?_reindents same, extra.2]⟩) extras

/-- The forms of parameters that can be read under their names. -/
def AreSound (forms : List (Text × ParamForm)) : Prop :=
  ∀ name form, (name, form) ∈ forms → form.IsSound ∧ name ≠ [] ∧ ∀ c ∈ name, isWordChar c

theorem textsOf_reindents {forms : List (Text × ParamForm)} (sound : AreSound forms)
    {params : List Text} (h : List.Forall₂ Reindents (textsOf forms) params) :
    params = textsOf forms := by
  induction forms generalizing params with
  | nil =>
      cases h
      rfl
  | cons first rest ih =>
      obtain ⟨name, form⟩ := first
      cases h with
      | cons here later =>
          obtain ⟨isSound, -, word⟩ := sound name form (by simp)
          rw [here.eq_of_notMem (ParamForm.oneLine_text isSound fun c inside =>
            FieldParam.isNameChar_of_isWordChar (word c inside)),
            ih (fun name form member => sound name form (List.mem_cons_of_mem _ member)) later]
          rfl

theorem filterMap_textsOf {forms : List (Text × ParamForm)} (sound : AreSound forms) :
    (textsOf forms).filterMap FieldParam.ofText? = paramsOf forms := by
  induction forms with
  | nil => rfl
  | cons first rest ih =>
      obtain ⟨name, form⟩ := first
      obtain ⟨isSound, filled, word⟩ := sound name form (by simp)
      have here := ParamForm.ofText?_of_sound isSound filled word
      rw [textsOf, List.map_cons, List.filterMap_cons_some here, ← textsOf,
        ih fun name form member => sound name form (List.mem_cons_of_mem _ member)]
      rfl

theorem isParam_textsOf {forms : List (Text × ParamForm)} (sound : AreSound forms) :
    ∀ param ∈ textsOf forms, IsParam param ∧ CtorParts.opensGroup param = false ∧
      (FieldParam.ofText? param).isSome := by
  intro param member
  obtain ⟨⟨name, form⟩, inside, rfl⟩ := List.mem_map.mp member
  obtain ⟨isSound, filled, word⟩ := sound name form inside
  refine ⟨ParamForm.isParam_text isSound filled fun c inside =>
    FieldParam.isNameChar_of_isWordChar (word c inside), ?_, ?_⟩
  · exact ParamForm.opensGroup_text form name
  · rw [ParamForm.ofText?_of_sound isSound filled word]
    rfl

/-- What is read of a list that was written: the extras are extras again, and the fields
    have the forms that were written. -/
theorem read_written {extras : List Text} {forms : List (Text × ParamForm)}
    (areExtras : AreExtras extras) (sound : AreSound forms) {params : List Text}
    (h : List.Forall₂ Reindents (extras ++ textsOf forms) params) :
    ∃ extras', List.Forall₂ Reindents extras extras' ∧ params = extras' ++ textsOf forms ∧
      extrasOf params = extras' ∧ params.filterMap FieldParam.ofText? = paramsOf forms := by
  obtain ⟨extras', written, rfl, first, second⟩ := forall₂_append_left h
  rw [textsOf_reindents sound second]
  have again := areExtras.reindents first
  have none : extras'.filterMap FieldParam.ofText? = [] := by
    rw [List.filterMap_eq_nil_iff]
    exact fun param member => (again param member).2
  have kept : extrasOf extras' = extras' := by
    rw [extrasOf, List.filter_eq_self]
    intro param member
    rw [(again param member).2]
    rfl
  have gone : extrasOf (textsOf forms) = [] := by
    rw [extrasOf, List.filter_eq_nil_iff]
    intro param member
    have bound := (isParam_textsOf sound param member).2.2
    cases read : FieldParam.ofText? param with
    | none =>
        rw [read] at bound
        cases bound
    | some bound => simp
  refine ⟨extras', first, rfl, ?_, ?_⟩
  · rw [extrasOf, List.filter_append, ← extrasOf, ← extrasOf, kept, gone, List.append_nil]
  · rw [List.filterMap_append, none, filterMap_textsOf sound, List.nil_append]

/-! ## The key of a widget -/

/-- The key is taken, and it reaches the superclass. -/
def KeyPassed (kept : KeptParams) : Prop :=
  (∃ param ∈ kept.extras ++ kept.groupExtras, param.words.contains "key".toList) ∧
    (kept.rest.has "super(" ∨ ∃ param ∈ kept.extras ++ kept.groupExtras, param.endsWith "super.key")

theorem keyPassed_withKey (kept : KeptParams) : kept.withKey.KeyPassed := by
  have key : (Text.words "Key? key".toList).contains "key".toList := by decide +kernel
  rw [withKey]
  by_cases taken : (kept.extras ++ kept.groupExtras).any fun p => p.words.contains "key".toList
  · rw [if_pos taken]
    refine ⟨List.any_eq_true.mp taken, ?_⟩
    by_cases passed : (kept.rest.has "super(" || (kept.extras ++ kept.groupExtras).any fun p =>
      Text.endsWith p "super.key") = true
    · dsimp only
      rw [if_pos passed]
      rw [Bool.or_eq_true, List.any_eq_true] at passed
      exact passed
    · dsimp only
      rw [if_neg passed]
      exact .inl (by decide)
  · rw [if_neg taken]
    refine ⟨⟨"Key? key".toList, by simp, key⟩, ?_⟩
    by_cases passed : (kept.rest.has "super(" ||
        ("Key? key".toList :: kept.extras ++ kept.groupExtras).any fun p =>
          Text.endsWith p "super.key") = true
    · dsimp only
      rw [if_pos passed]
      rw [Bool.or_eq_true, List.any_eq_true] at passed
      exact passed
    · dsimp only
      rw [if_neg passed]
      exact .inl (by decide)

theorem withKey_of_keyPassed {kept : KeptParams} (h : kept.KeyPassed) : kept.withKey = kept := by
  obtain ⟨taken, passed⟩ := h
  have taken : (kept.extras ++ kept.groupExtras).any fun p => p.words.contains "key".toList :=
    List.any_eq_true.mpr taken
  have passed : (kept.rest.has "super(" || (kept.extras ++ kept.groupExtras).any fun p =>
    Text.endsWith p "super.key") = true := by
    rw [Bool.or_eq_true, List.any_eq_true]
    exact passed
  rw [withKey]
  rw [if_pos taken, if_pos passed]

theorem KeyPassed.reindents {kept kept' : KeptParams} (h : kept.KeyPassed)
    (extras : List.Forall₂ Reindents (kept.extras ++ kept.groupExtras)
      (kept'.extras ++ kept'.groupExtras))
    (rest : Reindents kept.rest kept'.rest) : kept'.KeyPassed := by
  obtain ⟨taken, passed⟩ := h
  refine ⟨exists_of_forall₂ extras (fun _ _ same inside => by rwa [same.words_eq]) taken, ?_⟩
  refine passed.imp ?_ (exists_of_forall₂ extras ?_)
  · rw [Text.has_iff_infix, Text.has_iff_infix]
    exact rest.infix_of_infix (by decide)
  · intro param param' same ends
    rw [Text.endsWith, List.isSuffixOf_iff_suffix] at ends ⊢
    exact same.suffix_of_suffix (by decide) ends

end KeptParams

/-! ## What is written first -/

/-- Parameters whose brackets are properly nested, so that the list is read as it was
    meant; outside of a bracket none starts with one. -/
structure CtorParts.WellNested (parts : CtorParts) : Prop where
  plain : ∀ param ∈ parts.params.1, param.isNested
  grouped : ∀ group ∈ parts.params.2, ∀ param ∈ group.2, param.isNested
  opened : parts.style = .positional → ∀ param ∈ parts.params.1, CtorParts.opensGroup param = false

/-- Every parameter is an item that was split off a list. -/
theorem CtorParts.WellNested.isParam {parts : CtorParts} (h : parts.WellNested) :
    (∀ param ∈ parts.params.1, IsParam param) ∧ ∀ group ∈ parts.params.2, ∀ param ∈ group.2,
    IsParam param := by
  have split : ∀ all : List Text, (∀ param ∈ (CtorParts.splitGroup all).1, param ∈ all) ∧
      ∀ group ∈ (CtorParts.splitGroup all).2, ∀ param ∈ group.2, ∃ t,
        param ∈ Text.splitTopLevel ',' t := by
    intro all
    rw [CtorParts.splitGroup]
    split
    · exact ⟨fun param => id, by simp⟩
    · split
      · exact ⟨fun param => id, by simp⟩
      · refine ⟨fun param member => List.dropLast_subset all member, ?_⟩
        rintro group found param member
        cases found
        exact ⟨_, member⟩
  obtain ⟨plain, grouped, -⟩ := h
  rw [CtorParts.params] at plain grouped ⊢
  obtain ⟨outside, inside⟩ := split (Text.splitTopLevel ',' parts.inner)
  cases style : parts.style with
  | positional =>
      rw [style] at plain grouped
      refine ⟨fun param member => ⟨?_, plain param member⟩,
        fun group found param member => ⟨?_, grouped group found param member⟩⟩
      · exact Text.isItem_of_mem_splitTopLevel (outside param member) (plain param member)
      · obtain ⟨t, cut⟩ := inside group found param member
        exact Text.isItem_of_mem_splitTopLevel cut (grouped group found param member)
  | named | optional =>
      rw [style] at plain
      exact ⟨fun param member => ⟨Text.isItem_of_mem_splitTopLevel member (plain param member),
        plain param member⟩, by simp⟩

structure KeptParams.IsReadable (kept : KeptParams) : Prop where
  extras : AreExtras (kept.extras ++ kept.groupExtras)
  opened : kept.style = .positional → ∀ param ∈ kept.extras, CtorParts.opensGroup param = false
  defaults : ∀ name expression, kept.defaults.lookup name = some (some expression) →
    IsExpression expression
  lead : kept.lead = [] ∨ kept.lead = "const".toList
  rest : kept.rest.trim = kept.rest

section First

variable {c : ClassDecl} {ctor : Constructor}

theorem KeptParams.isReadable_ofConstructor
    (nested : (CtorParts.ofText ctor.text c.name).WellNested)
    (lead : (CtorParts.ofText ctor.text c.name).lead = [] ∨
      (CtorParts.ofText ctor.text c.name).lead = "const".toList)
    (rest : (CtorParts.ofText ctor.text c.name).rest.trim =
      (CtorParts.ofText ctor.text c.name).rest) :
    (ofConstructor c ctor).IsReadable := by
  obtain ⟨plain, grouped⟩ := nested.isParam
  have inside : ∀ param ∈ ((CtorParts.ofText ctor.text c.name).params.2.map (·.2)).getD [],
      IsParam param := by
    cases found : (CtorParts.ofText ctor.text c.name).params.2 with
    | none => simp
    | some group => exact grouped group found
  have extra : ∀ params : List Text, (∀ param ∈ params, IsParam param) →
      AreExtras (extrasOf params) := by
    intro params each param member
    obtain ⟨here, unbound⟩ := List.mem_filter.mp member
    exact ⟨each param here, by simpa using unbound⟩
  refine ⟨?_, ?_, ?_, lead, rest⟩
  · intro param member
    rcases List.mem_append.mp member with member | member
    · exact extra _ plain param member
    · exact extra _ inside param member
  · intro positional param member
    exact nested.opened positional param (List.mem_filter.mp member).1
  · intro name expression found
    obtain ⟨before, after, split, -⟩ := List.lookup_eq_some_iff.mp found
    have member : (name, some expression) ∈ (ofConstructor c ctor).defaults := by
      rw [split]
      simp
    obtain ⟨bound, read, same⟩ := List.mem_map.mp (List.mem_reverse.mp member)
    obtain ⟨param, here, binds⟩ := List.mem_filterMap.mp (List.mem_filter.mp read).1
    obtain ⟨rfl, given⟩ := Prod.mk.inj same
    have isParam : IsParam param := (List.mem_append.mp here).elim (plain param) (inside param)
    exact FieldParam.isExpression_of_ofText? isParam (binds.trans (by rw [← given]))

theorem KeptParams.IsReadable.withKey {kept : KeptParams} (h : kept.IsReadable) :
    kept.withKey.IsReadable := by
  have key : IsParam "Key? key".toList ∧ FieldParam.ofText? "Key? key".toList = none :=
    ⟨⟨⟨by decide, by decide, by decide⟩, by decide⟩, by decide +kernel⟩
  obtain ⟨extras, opened, defaults, lead, rest⟩ := h
  refine ⟨?_, ?_, defaults, lead, ?_⟩
  · rw [KeptParams.withKey]
    split
    · exact extras
    · intro param member
      rcases List.mem_cons.mp member with rfl | member
      · exact key
      · exact extras param member
  · intro positional param member
    have plain := opened positional
    rw [KeptParams.withKey] at member
    split at member
    · exact plain param member
    · rcases List.mem_cons.mp member with rfl | member
      · rfl
      · exact plain param member
  · rw [KeptParams.withKey]
    dsimp only
    split <;> split
    · exact rest
    · decide
    · exact rest
    · decide

theorem ofText_scanned {text : Text} (member : c ∈ scan text) (found : c.ctor = some ctor) :
    ((CtorParts.ofText ctor.text c.name).lead = [] ∨
      (CtorParts.ofText ctor.text c.name).lead = "const".toList) ∧
      (CtorParts.ofText ctor.text c.name).rest.trim = (CtorParts.ofText ctor.text c.name).rest := by
  obtain ⟨lead, after, isLead, split⟩ := ctor_split member found
  have leads : lead.trim = [] ∨ lead.trim = "const".toList := by
    rcases isLead with blank | ⟨before, gap, left, right, rfl⟩
    · exact .inl (Text.trim_of_isBlankText blank)
    · have spaced : Text.isBlankText (' ' :: gap) := by
        rw [Text.isBlankText, List.all_cons]
        exact right
      have shape : before ++ "const ".toList ++ gap = before ++ "const".toList ++ (' ' :: gap) := by
        simp
      rw [shape]
      exact .inr (Text.trim_around left spaced (by decide))
  rw [CtorParts.ofText, split, cut?_ctor isLead (isLabel_of_mem_scan member)]
  dsimp only
  split
  · exact ⟨leads, Text.trim_trim _⟩
  · split <;> exact ⟨leads, Text.trim_trim _⟩

theorem KeptParams.isReadable_ofClass {text : Text} (member : c ∈ scan text)
    (found : c.ctor = some ctor) (complete : ctor.lastLine.isSome)
    (nested : (CtorParts.ofText ctor.text c.name).WellNested) :
    (KeptParams.ofClass c).IsReadable := by
  obtain ⟨lead, rest⟩ := ofText_scanned member found
  have base := isReadable_ofConstructor nested lead rest
  simp only [KeptParams.ofClass, found, complete, ↓reduceIte]
  split
  · exact base.withKey
  · exact base

theorem exists_field_of_mem (style : Style) {name : Text} {form : ParamForm}
    (member : (name, form) ∈ (ConstructorPlan.ofClass style c).plain ++
      (ConstructorPlan.ofClass style c).grouped) :
    ∃ f ∈ c.fields, ∃ named, name = f.name ∧
      form = ParamForm.choose style named f
        (((KeptParams.ofClass c).defaults.lookup f.name).getD none) := by
  rcases List.mem_append.mp member with member | member <;>
  · obtain ⟨f, inside, same⟩ := List.mem_map.mp member
    obtain ⟨rfl, rfl⟩ := Prod.mk.inj same
    exact ⟨f, (List.mem_filter.mp inside).1, _, rfl, rfl⟩

theorem isSound_ofClass (style : Style) (readable : (KeptParams.ofClass c).IsReadable)
    {name : Text} {form : ParamForm}
    (member : (name, form) ∈ (ConstructorPlan.ofClass style c).plain ++
      (ConstructorPlan.ofClass style c).grouped) :
    form.IsSound := by
  obtain ⟨f, field, named, rfl, rfl⟩ := exists_field_of_mem style member
  refine ParamForm.isSound_choose style named f ?_
  intro expression given
  cases old : (KeptParams.ofClass c).defaults.lookup f.name with
  | none =>
      rw [old] at given
      cases given
  | some default? =>
      rw [old] at given
      exact readable.defaults f.name expression (by rw [old, ← given, Option.getD_some])

theorem areSound_ofClass (style : Style) (readable : (KeptParams.ofClass c).IsReadable)
    (names : ∀ name ∈ c.fieldNames, name ≠ [] ∧ ∀ d ∈ name, isWordChar d) :
    KeptParams.AreSound
      ((ConstructorPlan.ofClass style c).plain ++ (ConstructorPlan.ofClass style c).grouped) := by
  intro name form member
  refine ⟨isSound_ofClass style readable member, ?_⟩
  obtain ⟨f, field, named, rfl, rfl⟩ := exists_field_of_mem style member
  exact names f.name (List.mem_map_of_mem field)

end First

/-! ## The plan -/

namespace KeptParams

/-- What is kept of a list that was read, for a class with the given fields. -/
def ofRead (names : List Text) (lead rest : Text) (style : ParamStyle) (params : List Text)
    (group : Option (GroupStyle × List Text)) : KeptParams :=
  let grouped := (group.map (·.2)).getD []
  { lead, style, rest
    extras := extrasOf params
    group := group.map (·.1)
    groupExtras := extrasOf grouped
    defaults := ((boundOf names (params ++ grouped)).map fun p => (p.field, p.default?)).reverse
    groupFields := (boundOf names grouped).map (·.field) }

theorem ofConstructor_eq (c : ClassDecl) (ctor : Constructor) :
    ofConstructor c ctor =
      let parts := CtorParts.ofText ctor.text c.name
      ofRead c.fieldNames parts.lead parts.rest parts.style parts.params.1 parts.params.2 := rfl

theorem lookup_of_nodup {β : Type} {l : List (Text × β)} (nodup : (l.map (·.1)).Nodup)
    {name : Text} {value : β} (member : (name, value) ∈ l) : l.lookup name = some value := by
  induction l with
  | nil => cases member
  | cons first rest ih =>
      obtain ⟨key, stored⟩ := first
      rw [List.map_cons, List.nodup_cons] at nodup
      rcases List.mem_cons.mp member with same | inside
      · cases same
        exact List.lookup_cons_self
      · have other : (name == key) = false := by
          rw [beq_eq_false_iff_ne]
          rintro rfl
          exact nodup.1 (List.mem_map.mpr ⟨_, inside, rfl⟩)
        rw [List.lookup_cons, other]
        exact ih nodup.2 inside

theorem boundOf_written {names params : List Text} {forms : List (Text × ParamForm)}
    (all : ∀ name ∈ forms.map (·.1), name ∈ names)
    (read : params.filterMap FieldParam.ofText? = paramsOf forms) :
    boundOf names params = paramsOf forms := by
  rw [boundOf, read, List.filter_eq_self]
  intro bound member
  obtain ⟨form, inside, rfl⟩ := List.mem_map.mp member
  simpa using all form.1 (List.mem_map_of_mem inside)

theorem lookup_written {names params : List Text} {forms : List (Text × ParamForm)}
    (nodup : (forms.map (·.1)).Nodup) (all : ∀ name ∈ forms.map (·.1), name ∈ names)
    (read : params.filterMap FieldParam.ofText? = paramsOf forms) {name : Text} {form : ParamForm}
    (member : (name, form) ∈ forms) :
    (((boundOf names params).map fun p => (p.field, p.default?)).reverse).lookup name =
    some form.default? := by
  rw [boundOf_written all read]
  have keys : ((paramsOf forms).map fun p => (p.field, p.default?)) = forms.map fun x =>
      (x.1, x.2.default?) := by
    rw [paramsOf, List.map_map]
    rfl
  apply lookup_of_nodup
  · rw [keys, List.map_reverse, List.nodup_reverse, List.map_map]
    exact nodup
  · rw [keys, List.mem_reverse]
    exact List.mem_map_of_mem (f := fun x : Text × ParamForm => (x.1, x.2.default?)) member

/-- The forms that a style chooses for some fields, given what is kept. -/
def formsOf (style : Style) (named : Bool) (kept : KeptParams) (fields : List Field) :
    List (Text × ParamForm) :=
  fields.map fun f =>
    (f.name, ParamForm.choose style named f ((kept.defaults.lookup f.name).getD none))

theorem formsOf_again {style : Style} {named : Bool} {kept kept' : KeptParams}
    {fields : List Field}
    (again : ∀ name form, (name, form) ∈ formsOf style named kept fields →
      kept'.defaults.lookup name = some form.default?) :
    formsOf style named kept' fields = formsOf style named kept fields := by
  apply List.map_congr_left
  intro f member
  rw [again f.name _ (List.mem_map.mpr ⟨f, member, rfl⟩), Option.getD_some,
    ParamForm.choose_default?]

end KeptParams

section Plan

variable {c : ClassDecl} {style : Style}

theorem plain_eq (style : Style) (c : ClassDecl) : (ConstructorPlan.ofClass style c).plain =
    KeptParams.formsOf style ((KeptParams.ofClass c).style == .named) (KeptParams.ofClass c)
      (c.fields.filter fun f => !(KeptParams.ofClass c).groupFields.contains f.name) := rfl

theorem grouped_eq (style : Style) (c : ClassDecl) : (ConstructorPlan.ofClass style c).grouped =
    KeptParams.formsOf style ((KeptParams.ofClass c).group == some .named) (KeptParams.ofClass c)
      (c.fields.filter fun f => (KeptParams.ofClass c).groupFields.contains f.name) := rfl

theorem names_ofClass (valid : c.isValid) :
    let plan := ConstructorPlan.ofClass style c
    ((plan.plain ++ plan.grouped).map (·.1)).Nodup ∧ ∀ name ∈ (plan.plain ++ plan.grouped).map
    (·.1), name ∈ c.fieldNames := by
  intro plan
  obtain ⟨-, nodup⟩ := distinct_of_isValid valid
  rw [List.map_append, plain_names, grouped_names]
  refine ⟨?_, ?_⟩
  · refine List.Nodup.append (nodup.filter _) (nodup.filter _) ?_
    intro name plain grouped
    have out := (List.mem_filter.mp plain).2
    rw [(List.mem_filter.mp grouped).2] at out
    cases out
  · intro name member
    rcases List.mem_append.mp member with member | member
    · exact (List.mem_filter.mp member).1
    · exact (List.mem_filter.mp member).1

theorem group_of_none {ctor : Constructor} (found : c.ctor = some ctor)
    (complete : ctor.lastLine.isNone = false) (alone : (KeptParams.ofClass c).group = none) :
    (KeptParams.ofClass c).groupExtras = [] ∧ (KeptParams.ofClass c).groupFields = [] := by
  obtain ⟨-, group, fields⟩ := kept_of_complete found complete
  rw [group] at alone
  refine ⟨?_, by rw [fields, groupFields_eq_nil alone]⟩
  have base : (KeptParams.ofConstructor c ctor).groupExtras = [] := by
    rw [KeptParams.ofConstructor_eq] at alone ⊢
    have none : (CtorParts.ofText ctor.text c.name).params.2 = none :=
      Option.map_eq_none_iff.mp alone
    simp [KeptParams.ofRead, none, KeptParams.extrasOf]
  have some : ctor.lastLine.isSome := by
    cases h : ctor.lastLine <;> simp_all
  simp only [KeptParams.ofClass, found, some, ↓reduceIte]
  split
  · exact base
  · exact base

theorem grouped_eq_nil (none : (KeptParams.ofClass c).groupFields = []) :
    (ConstructorPlan.ofClass style c).grouped = [] := by
  rw [grouped_eq, none]
  simp [KeptParams.formsOf]

def ConstructorPlan.group (plan : ConstructorPlan) : Option (GroupStyle × List Text) :=
  plan.bracket?.map fun (group, extras, params) => (group, extras ++ KeptParams.textsOf params)

/-- The plan for some fields, given what is kept. -/
def ConstructorPlan.ofKept (style : Style) (fields : List Field) (kept : KeptParams) :
    ConstructorPlan where
  kept := kept
  plain := KeptParams.formsOf style (kept.style == .named) kept
    (fields.filter fun f => !kept.groupFields.contains f.name)
  grouped := KeptParams.formsOf style (kept.group == some .named) kept
    (fields.filter fun f => kept.groupFields.contains f.name)

theorem shape_of_positional {plan : ConstructorPlan} (positional : plan.kept.style = .positional) :
    plan.outside = plan.kept.extras ++ KeptParams.textsOf plan.plain ∧
      plan.group = plan.kept.group.map fun bracket =>
        (bracket, plan.kept.groupExtras ++ KeptParams.textsOf plan.grouped) := by
  rw [ConstructorPlan.outside, ConstructorPlan.group, ConstructorPlan.bracket?, positional]
  refine ⟨rfl, ?_⟩
  rw [Option.map_map]
  rfl

theorem shape_of_bracket {plan : ConstructorPlan} {bracket : GroupStyle}
    (style : plan.kept.style = CtorParts.listStyle bracket) :
    plan.outside = [] ∧
      plan.group = some (bracket, plan.kept.extras ++ KeptParams.textsOf plan.plain) := by
  rw [ConstructorPlan.outside, ConstructorPlan.group, ConstructorPlan.bracket?, style]
  cases bracket <;> exact ⟨rfl, rfl⟩

end Plan

end ValueClass.Dart
