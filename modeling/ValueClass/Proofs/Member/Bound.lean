import ValueClass.Proofs.Member.Formal

/-! # One parameter for each field

The constructor that is written keeps the parameters that bind no field, in their order
and on their side of a bracket, and binds every field. A parameter that binds a field and
is not read to do so is taken for one that binds none: it is kept, and the field is bound
twice.
-/

namespace ValueClass.Dart

open FieldParam (IsParam isNameChar)

/-! ## Lists of parameters -/

namespace Param

def bindingsOf (params : List Param) : List Binding :=
  params.filterMap binding?

/-- The texts of the parameters that bind no field. -/
def othersOf (params : List Param) : List Text :=
  params.filterMap other?

/-- The parameters that are not read to bind a field. -/
def unread (params : List Param) : List Param :=
  params.filter fun p => (FieldParam.ofText? p.text).isNone

@[simp] theorem bindingsOf_append (a b : List Param) :
    bindingsOf (a ++ b) = bindingsOf a ++ bindingsOf b :=
  List.filterMap_append

@[simp] theorem othersOf_append (a b : List Param) : othersOf (a ++ b) = othersOf a ++ othersOf b :=
  List.filterMap_append

theorem unread_append (a b : List Param) : unread (a ++ b) = unread a ++ unread b :=
  List.filter_append a b

theorem mem_bindingsOf {params : List Param} {b : Binding} :
    b ∈ bindingsOf params ↔ .binds b ∈ params := by
  rw [bindingsOf, List.mem_filterMap]
  constructor
  · rintro ⟨p, member, found⟩
    cases p with
    | binds b' =>
        cases found
        exact member
    | other text => cases found
  · exact fun member => ⟨_, member, rfl⟩

@[simp] theorem bindingsOf_other (texts : List Text) : bindingsOf (texts.map .other) = [] := by
  simp [bindingsOf, List.filterMap_map, Function.comp_def, binding?]

@[simp] theorem othersOf_other (texts : List Text) : othersOf (texts.map .other) = texts := by
  simp [othersOf, List.filterMap_map, Function.comp_def, other?]

@[simp] theorem othersOf_ofForm (forms : List (Text × ParamForm)) :
    othersOf (forms.map ofForm) = [] := by
  simp [othersOf, List.filterMap_map, Function.comp_def, other?, ofForm]

theorem bindingsOf_ofForm (forms : List (Text × ParamForm)) :
    bindingsOf (forms.map ofForm) = forms.map fun form => .ofForm form.1 form.2 := by
  simp [bindingsOf, List.filterMap_map, Function.comp_def, binding?, ofForm]

theorem texts_ofForm (forms : List (Text × ParamForm)) :
    (forms.map ofForm).map text = KeptParams.textsOf forms := by
  rw [List.map_map]
  exact List.map_congr_left fun form _ => Binding.text_ofForm form.1 form.2

theorem extrasOf_texts (params : List Param) :
    KeptParams.extrasOf (params.map text) = (unread params).map text := by
  rw [KeptParams.extrasOf, List.filter_map]
  rfl

theorem ofText?_of_other {t : Text} (formed : (other t).IsFormed) :
    FieldParam.ofText? (other t).text = none :=
  ofText?_other formed.own

theorem ofText?_of_binds {b : Binding} (formed : (binds b).IsFormed) {read : FieldParam} :
    FieldParam.ofText? (binds b).text = some read ↔ b.IsPlain ∧ read = ⟨b.name, b.expression?⟩ :=
  Binding.ofText?_iff formed.own

section Read

variable {params : List Param} (formed : ∀ p ∈ params, p.IsFormed)

include formed

theorem othersOf_unread : othersOf (unread params) = othersOf params := by
  induction params with
  | nil => rfl
  | cons p rest ih =>
      have later := ih fun p member => formed p (List.mem_cons_of_mem _ member)
      cases p with
      | other text =>
          have none := ofText?_of_other (formed _ List.mem_cons_self)
          rw [unread, List.filter_cons_of_pos (by rw [none]; rfl)]
          exact congrArg (text :: ·) later
      | binds b =>
          have skip : othersOf (.binds b :: rest) = othersOf rest := rfl
          rw [unread, List.filter_cons, skip, ← later]
          split <;> rfl

theorem mem_bindingsOf_unread {b : Binding} :
    b ∈ bindingsOf (unread params) ↔ b ∈ bindingsOf params ∧ ¬ b.IsPlain := by
  rw [mem_bindingsOf, mem_bindingsOf, unread, List.mem_filter]
  apply and_congr_right
  intro member
  have reads := @ofText?_of_binds b (formed _ member)
  rw [Option.isNone_iff_eq_none]
  constructor
  · intro none plain
    rw [reads.mpr ⟨plain, rfl⟩] at none
    cases none
  · intro other
    rw [Option.eq_none_iff_forall_ne_some]
    exact fun read found => other (reads.mp found).1

theorem mem_read_iff {read : FieldParam} : read ∈ (params.map text).filterMap FieldParam.ofText? ↔
    ∃ b ∈ bindingsOf params, b.IsPlain ∧ read = ⟨b.name, b.expression?⟩ := by
  rw [List.mem_filterMap]
  constructor
  · rintro ⟨t, member, found⟩
    obtain ⟨p, inside, rfl⟩ := List.mem_map.mp member
    cases p with
    | other t =>
        rw [ofText?_of_other (formed _ inside)] at found
        cases found
    | binds b => exact ⟨b, mem_bindingsOf.mpr inside, (ofText?_of_binds (formed _ inside)).mp found⟩
  · rintro ⟨b, member, plain⟩
    have inside := mem_bindingsOf.mp member
    exact ⟨_, List.mem_map_of_mem inside, (ofText?_of_binds (formed _ inside)).mpr plain⟩

/-- The names that are read stand in the order of the parameters. -/
theorem read_sublist :
    (((params.map text).filterMap FieldParam.ofText?).map (·.field)).Sublist
    ((bindingsOf params).map (·.name)) := by
  induction params with
  | nil => exact .slnil
  | cons p rest ih =>
      have later := ih fun p member => formed p (List.mem_cons_of_mem _ member)
      cases p with
      | other t =>
          rw [List.map_cons,
            List.filterMap_cons_none (ofText?_of_other (formed _ List.mem_cons_self))]
          exact later
      | binds b =>
          have names : (bindingsOf (.binds b :: rest)).map (·.name) =
              b.name :: (bindingsOf rest).map (·.name) := rfl
          rw [names]
          cases found : FieldParam.ofText? (binds b).text with
          | none =>
              rw [List.map_cons, List.filterMap_cons_none found]
              exact later.cons b.name
          | some read =>
              obtain ⟨-, rfl⟩ := (ofText?_of_binds (formed _ List.mem_cons_self)).mp found
              rw [List.map_cons, List.filterMap_cons_some found]
              exact later.cons_cons b.name

end Read

end Param

/-! ## Layouts -/

/-- A parameter list: what stands outside of a bracket, and the bracket at the end. -/
structure ParamLayout where
  /-- The parameters outside of the bracket. -/
  outside : List Param
  /-- The bracket and the parameters in it. -/
  group : Option (GroupStyle × List Param)
  deriving Repr, DecidableEq

namespace ParamLayout

def inside (l : ParamLayout) : List Param :=
  (l.group.map (·.2)).getD []

def all (l : ParamLayout) : List Param :=
  l.outside ++ l.inside

def bindings (l : ParamLayout) : List Binding :=
  Param.bindingsOf l.all

/-- The bracket with the texts of its parameters. -/
def groupTexts (l : ParamLayout) : Option (GroupStyle × List Text) :=
  l.group.map fun g => (g.1, g.2.map Param.text)

def LaysOut (l : ParamLayout) (inner : Text) : Prop :=
  CtorParts.LaysOut (l.outside.map Param.text) l.groupTexts inner

structure IsFormed (l : ParamLayout) : Prop where
  each : ∀ p ∈ l.all, p.IsFormed
  opened : ∀ p ∈ l.outside, CtorParts.opensGroup p.text = false

def inBracket (l : ParamLayout) : Bool :=
  l.outside.isEmpty && l.group.isSome

/-- The parameters that bind no field are kept once each, in their order and on their
    side; a key comes first. -/
structure Keeps (old new : ParamLayout) (key : List Text) : Prop where
  bracket : new.group.map (·.1) = old.group.map (·.1)
  outside : Param.othersOf new.outside = (if old.inBracket then [] else key) ++
    Param.othersOf old.outside
  inside : Param.othersOf new.inside = (if old.inBracket then key else []) ++
    Param.othersOf old.inside

/-- A field has one parameter, with the default value that it had. -/
structure BindsOnce (old new : ParamLayout) (field : Text) : Prop where
  once : (new.bindings.map (·.name)).count field = 1
  kept : ∀ b ∈ new.bindings, b.name = field → ∀ o ∈ old.bindings, o.name = field →
    ∀ expression ∈ o.expression?, b.expression? = some expression

/-- The parameters that are read outside of a bracket, or in it if all of them are. -/
def main (l : ParamLayout) : List Param :=
  if l.inBracket then l.inside else l.outside

def side (l : ParamLayout) : List Param :=
  if l.inBracket then [] else l.inside

def arrange (l : ParamLayout) (main side : List Param) : ParamLayout :=
  if l.inBracket then ⟨[], l.group.map fun g => (g.1, main)⟩
    else ⟨main, l.group.map fun g => (g.1, side)⟩

theorem main_append_side (l : ParamLayout) : l.main ++ l.side = l.all := by
  rw [main, side, all]
  cases bracket : l.inBracket with
  | true =>
      rw [inBracket, Bool.and_eq_true, List.isEmpty_iff] at bracket
      simp [bracket.1]
  | false => rfl

theorem side_eq_nil {l : ParamLayout} (alone : l.inBracket ∨ l.group = none) : l.side = [] := by
  rw [side]
  rcases alone with bracket | none
  · rw [if_pos bracket]
  · simp [inside, none]

theorem all_arrange {l : ParamLayout} {main side : List Param}
    (alone : l.inBracket ∨ l.group = none → side = []) :
    (l.arrange main side).all = main ++ side := by
  rw [arrange]
  cases bracket : l.inBracket with
  | true =>
      rw [alone (.inl bracket)]
      rw [inBracket, Bool.and_eq_true, Option.isSome_iff_exists] at bracket
      obtain ⟨-, g, some⟩ := bracket
      simp [all, inside, some]
  | false =>
      cases given : l.group with
      | none => simp [all, inside, alone (.inr given)]
      | some g => simp [all, inside]

/-- Others that are kept on both sides are kept in the layout. -/
theorem keeps_arrange {l : ParamLayout} {main side : List Param} {key : List Text}
    (first : Param.othersOf main = key ++ Param.othersOf l.main)
    (second : Param.othersOf side = Param.othersOf l.side) :
    l.Keeps (l.arrange main side) key := by
  rw [ParamLayout.main] at first
  rw [ParamLayout.side] at second
  cases bracket : l.inBracket with
  | true =>
      rw [if_pos bracket] at first
      have parts := bracket
      rw [inBracket, Bool.and_eq_true, List.isEmpty_iff, Option.isSome_iff_exists] at parts
      obtain ⟨none, g, some⟩ := parts
      refine ⟨by simp [arrange, bracket, some], ?_, ?_⟩
      · rw [arrange, if_pos bracket, if_pos bracket, none]
        rfl
      · rw [arrange, if_pos bracket, if_pos bracket, inside, some]
        exact first
  | false =>
      have other : ¬ l.inBracket = true := by rw [bracket]; exact Bool.false_ne_true
      rw [if_neg other] at first second
      refine ⟨?_, ?_, ?_⟩
      · rw [arrange, if_neg other, Option.map_map]
        rfl
      · rw [arrange, if_neg other, if_neg other]
        exact first
      · rw [arrange, if_neg other, if_neg other]
        cases given : l.group with
        | none => simp [inside, given, Param.othersOf]
        | some g => exact second

/-! ## Reading -/

theorem read_parts {l : ParamLayout} {parts : CtorParts}
    (read : (parts.style, parts.params) = CtorParts.readOf
      (l.outside.map Param.text) l.groupTexts) :
    parts.params.1 = l.main.map Param.text ∧ (parts.params.2.map (·.2)).getD [] =
      l.side.map Param.text ∧
      if l.inBracket then ∃ bracket, l.group.map (·.1) = some bracket ∧
        parts.style = CtorParts.listStyle bracket ∧
        parts.params.2 = none
      else parts.style = .positional ∧ parts.params.2 = l.groupTexts := by
  obtain ⟨style, params⟩ := Prod.mk.inj read
  rw [style, params]
  obtain ⟨outside, group⟩ := l
  cases group with
  | none => cases outside <;> exact ⟨rfl, rfl, rfl, rfl⟩
  | some g =>
      obtain ⟨bracket, inside⟩ := g
      cases outside with
      | nil => exact ⟨rfl, rfl, bracket, rfl, rfl, rfl⟩
      | cons p rest => exact ⟨rfl, rfl, rfl, rfl⟩

variable {l : ParamLayout} {name lead inner rest : Text}

theorem ofText_laysOut (formed : l.IsFormed) (isLead : IsLead lead) (label : IsLabel name)
    (laid : l.LaysOut inner) :
    let parts := CtorParts.ofText (lead ++ (name ++ '(' :: (inner ++ ')' :: rest))) name
    (parts.style, parts.params) = CtorParts.readOf (l.outside.map Param.text) l.groupTexts := by
  refine (CtorParts.ofText_laysOut isLead label laid ?_ ?_).2.1
  · intro param member
    obtain ⟨p, inside, rfl⟩ := List.mem_map.mp member
    exact ⟨(formed.each p (List.mem_append_left _ inside)).toIsParam, formed.opened p inside⟩
  · intro g found param member
    obtain ⟨⟨bracket, params⟩, given, rfl⟩ := Option.map_eq_some_iff.mp found
    obtain ⟨p, inside, rfl⟩ := List.mem_map.mp member
    refine (formed.each p (List.mem_append_right _ ?_)).toIsParam
    rw [ParamLayout.inside, given]
    exact inside

/-- The parameters that are read are properly nested. -/
theorem wellNested (formed : l.IsFormed) {parts : CtorParts}
    (read : (parts.style, parts.params) = CtorParts.readOf
      (l.outside.map Param.text) l.groupTexts) :
    parts.WellNested := by
  obtain ⟨first, second, styles⟩ := read_parts read
  have each : ∀ p ∈ l.main ++ l.side, p.IsFormed := by
    rw [main_append_side]
    exact formed.each
  refine ⟨?_, ?_, ?_⟩
  · rw [first]
    intro param member
    obtain ⟨p, inside, rfl⟩ := List.mem_map.mp member
    exact (each p (List.mem_append_left _ inside)).nested
  · intro group found param member
    have inside : param ∈ (parts.params.2.map (·.2)).getD [] := by
      rw [Option.mem_def.mp found]
      exact member
    rw [second] at inside
    obtain ⟨p, here, rfl⟩ := List.mem_map.mp inside
    exact (each p (List.mem_append_right _ here)).nested
  · intro positional param member
    rw [first] at member
    obtain ⟨p, inside, rfl⟩ := List.mem_map.mp member
    split_ifs at styles with bracket
    · obtain ⟨group, -, style, -⟩ := styles
      rw [style] at positional
      cases group <;> cases positional
    · rw [main, if_neg bracket] at inside
      exact formed.opened p inside

end ParamLayout

/-! ## What is taken over -/

section Taken

variable {c : ClassDecl} {ctor : Constructor} {old : ParamLayout}

theorem KeptParams.ofClass_eq (found : c.ctor = some ctor) (complete : ctor.lastLine.isSome) :
    ∃ key rest, (key = [] ∨ c.header.isWidget ∧ key = ["Key? key".toList]) ∧ KeptParams.ofClass c =
      { KeptParams.ofConstructor c ctor with extras :=
        key ++ (KeptParams.ofConstructor c ctor).extras, rest } := by
  simp only [KeptParams.ofClass, found, complete, ↓reduceIte]
  split
  · rename_i widget
    rw [KeptParams.withKey]
    split
    · exact ⟨[], _, .inl rfl, rfl⟩
    · exact ⟨_, _, .inr ⟨widget, rfl⟩, rfl⟩
  · exact ⟨[], _, .inl rfl, rfl⟩

variable (found : c.ctor = some ctor) (complete : ctor.lastLine.isSome) (formed : old.IsFormed)
  (read : ((CtorParts.ofText ctor.text c.name).style, (CtorParts.ofText ctor.text c.name).params) =
    CtorParts.readOf (old.outside.map Param.text) old.groupTexts)

include found complete read

/-- What is taken over of a layout. -/
theorem ofClass_of_layout :
    let kept := KeptParams.ofClass c
    ∃ key, (key = [] ∨ c.header.isWidget ∧ key = ["Key? key".toList]) ∧
      kept.extras = (key.map Param.other ++ Param.unread old.main).map Param.text ∧
      kept.groupExtras = (Param.unread old.side).map Param.text ∧
      kept.defaults = ((KeptParams.boundOf c.fieldNames (old.all.map Param.text)).map fun p =>
        (p.field, p.default?)).reverse ∧
      if old.inBracket then ∃ bracket, old.group.map (·.1) = some bracket ∧
        kept.style = CtorParts.listStyle bracket ∧
        kept.group = none
      else kept.style = .positional ∧ kept.group = old.group.map (·.1) := by
  intro kept
  obtain ⟨key, rest, isKey, same⟩ := KeptParams.ofClass_eq found complete
  obtain ⟨first, second, styles⟩ := ParamLayout.read_parts read
  have base := KeptParams.ofConstructor_eq c ctor
  refine ⟨key, isKey, ?_, ?_, ?_, ?_⟩
  · have texts : (key.map Param.other).map Param.text = key := by
      rw [List.map_map]
      exact List.map_id key
    rw [show kept = _ from same, List.map_append, texts, base]
    show key ++ KeptParams.extrasOf _ = _
    rw [first, Param.extrasOf_texts]
  · rw [show kept = _ from same, base]
    show KeptParams.extrasOf _ = _
    rw [second, Param.extrasOf_texts]
  · rw [show kept = _ from same, base]
    show ((KeptParams.boundOf _ (_ ++ _)).map _).reverse = _
    rw [first, second, ← List.map_append, ParamLayout.main_append_side]
  · rw [show kept = _ from same, base]
    split_ifs at styles ⊢
    · obtain ⟨bracket, group, style, alone⟩ := styles
      refine ⟨bracket, group, style, ?_⟩
      show Option.map _ (CtorParts.params _).2 = none
      rw [alone]
      rfl
    · refine ⟨styles.1, ?_⟩
      show Option.map _ (CtorParts.params _).2 = _
      rw [styles.2, ParamLayout.groupTexts, Option.map_map]
      rfl

end Taken

section Defaults

variable {c : ClassDecl} {old : ParamLayout}

theorem lookup_defaults (formed : old.IsFormed) (distinct : (old.bindings.map (·.name)).Nodup)
    {o : Binding} (member : o ∈ old.bindings) (plain : o.IsPlain) (field : o.name ∈ c.fieldNames) :
    ((KeptParams.boundOf c.fieldNames (old.all.map Param.text)).map fun p =>
      (p.field, p.default?)).reverse.lookup o.name =
      some o.expression? := by
  have names : ((KeptParams.boundOf c.fieldNames (old.all.map Param.text)).map (·.field)).Nodup :=
    ((List.filter_sublist.map _).trans (Param.read_sublist formed.each)).nodup distinct
  apply KeptParams.lookup_of_nodup
  · rw [List.map_reverse, List.nodup_reverse, List.map_map]
    exact names
  · rw [List.mem_reverse]
    refine List.mem_map.mpr ⟨⟨o.name, o.expression?⟩,
      List.mem_filter.mpr ⟨?_, by simpa using field⟩, rfl⟩
    exact (Param.mem_read_iff formed.each).mpr ⟨o, member, plain, rfl⟩

theorem exists_of_lookup_defaults (formed : old.IsFormed) {name expression : Text}
    (given : ((KeptParams.boundOf c.fieldNames (old.all.map Param.text)).map fun p =>
      (p.field, p.default?)).reverse.lookup
      name = some (some expression)) : ∃ b ∈ old.bindings, b.IsPlain ∧
        b.expression? = some expression := by
  obtain ⟨before, after, split, -⟩ := List.lookup_eq_some_iff.mp given
  have member : (name, some expression) ∈
      ((KeptParams.boundOf c.fieldNames (old.all.map Param.text)).map fun p =>
        (p.field, p.default?)).reverse := by
    rw [split]
    simp
  obtain ⟨bound, inside, same⟩ := List.mem_map.mp (List.mem_reverse.mp member)
  obtain ⟨b, here, plain, rfl⟩ := (Param.mem_read_iff formed.each).mp (List.mem_filter.mp inside).1
  exact ⟨b, here, plain, (Prod.mk.inj same).2⟩

end Defaults

/-! ## What is written -/

section Written

variable {c : ClassDecl} {old : ParamLayout} {key : List Text}

/-- The parameters of the plan, given the key that is taken. -/
def ConstructorPlan.rearranged (plan : ConstructorPlan) (old : ParamLayout) (key : List Text) :
    ParamLayout :=
  old.arrange (key.map Param.other ++ Param.unread old.main ++ plan.plain.map Param.ofForm)
    (Param.unread old.side ++ plan.grouped.map Param.ofForm)

/-- The written list has the layout of the old one. -/
theorem rearranged_texts {plan : ConstructorPlan}
    (extras : plan.kept.extras = (key.map Param.other ++ Param.unread old.main).map Param.text)
    (groupExtras : plan.kept.groupExtras = (Param.unread old.side).map Param.text)
    (styles : if old.inBracket then ∃ bracket, old.group.map (·.1) = some bracket ∧
        plan.kept.style = CtorParts.listStyle bracket ∧ plan.kept.group = none
      else plan.kept.style = .positional ∧ plan.kept.group = old.group.map (·.1)) :
    plan.outside = (plan.rearranged old key).outside.map Param.text ∧
      plan.group = (plan.rearranged old key).groupTexts := by
  have main : plan.kept.extras ++ KeptParams.textsOf plan.plain =
      (key.map Param.other ++ Param.unread old.main ++ plan.plain.map Param.ofForm).map
        Param.text := by
    rw [extras, ← Param.texts_ofForm, ← List.map_append]
  have side : plan.kept.groupExtras ++ KeptParams.textsOf plan.grouped =
      (Param.unread old.side ++ plan.grouped.map Param.ofForm).map Param.text := by
    rw [groupExtras, ← Param.texts_ofForm, ← List.map_append]
  rw [ConstructorPlan.rearranged, ParamLayout.arrange]
  split_ifs at styles ⊢
  · obtain ⟨bracket, group, style, -⟩ := styles
    obtain ⟨g, given, rfl⟩ := Option.map_eq_some_iff.mp group
    obtain ⟨outside, shape⟩ := shape_of_bracket style
    rw [outside, shape, main, given]
    exact ⟨rfl, rfl⟩
  · obtain ⟨style, group⟩ := styles
    obtain ⟨outside, shape⟩ := shape_of_positional style
    rw [outside, shape, main, side, group, ParamLayout.groupTexts, Option.map_map, Option.map_map]
    exact ⟨rfl, rfl⟩

theorem closed_ofClass (style : Style) (formed : old.IsFormed)
    (defaults : (KeptParams.ofClass c).defaults =
      ((KeptParams.boundOf c.fieldNames (old.all.map Param.text)).map fun p =>
        (p.field, p.default?)).reverse)
    {name : Text} {form : ParamForm}
    (member : (name, form) ∈ (ConstructorPlan.ofClass style c).plain ++
      (ConstructorPlan.ofClass style c).grouped) :
    ∀ expression ∈ form.default?, (Line.blankStrings expression).has "//" = false := by
  obtain ⟨f, -, named, -, rfl⟩ := exists_field_of_mem style member
  refine ParamForm.forall_choose (by decide +kernel) style named f ?_
  intro expression given
  cases old? : (KeptParams.ofClass c).defaults.lookup f.name with
  | none =>
      rw [old?] at given
      cases given
  | some default? =>
      rw [old?, Option.getD_some] at given
      rw [defaults, Option.mem_def.mp given] at old?
      obtain ⟨b, here, plain, same⟩ := exists_of_lookup_defaults formed old?
      exact Binding.opensComment_of_isPlain plain
        (formed.each _ (Param.mem_bindingsOf.mp here)).closed expression same

theorem bindings_rearranged {plan : ConstructorPlan} (all : (plan.rearranged old key).all =
      (key.map Param.other ++ Param.unread old.main ++ plan.plain.map Param.ofForm) ++
        (Param.unread old.side ++ plan.grouped.map Param.ofForm)) :
    (plan.rearranged old key).bindings.Perm (Param.bindingsOf (Param.unread old.all) ++
      (plan.plain ++ plan.grouped).map fun form => .ofForm form.1 form.2) := by
  rw [ParamLayout.bindings, all, ← old.main_append_side, Param.unread_append, List.map_append]
  simp only [Param.bindingsOf_append, Param.bindingsOf_other, Param.bindingsOf_ofForm,
    List.nil_append, List.append_assoc]
  exact (List.perm_append_comm_assoc _ _ _).append_left _

/-- A field has one parameter just when all of its old ones are plain. -/
theorem bindsOnce_rearranged_iff {style : Style} (valid : c.isValid) (formed : old.IsFormed)
    (distinct : (old.bindings.map (·.name)).Nodup) (readable : (KeptParams.ofClass c).IsReadable)
    (defaults : (KeptParams.ofClass c).defaults =
      ((KeptParams.boundOf c.fieldNames (old.all.map Param.text)).map fun p =>
        (p.field, p.default?)).reverse)
    {new : ParamLayout} (bindings : new.bindings.Perm (Param.bindingsOf (Param.unread old.all) ++
      ((ConstructorPlan.ofClass style c).plain ++ (ConstructorPlan.ofClass style c).grouped).map
        fun form => .ofForm form.1 form.2)) {f : Field} (field : f ∈ c.fields) :
    old.BindsOnce new f.name ↔ ∀ b ∈ old.bindings, b.name = f.name → b.IsPlain := by
  obtain ⟨nodup, -⟩ := @names_ofClass c style valid
  have named : f.name ∈ c.fieldNames := List.mem_map_of_mem field
  have written : f.name ∈
      ((ConstructorPlan.ofClass style c).plain ++ (ConstructorPlan.ofClass style c).grouped).map
        (·.1) := by
    rw [List.map_append, plain_names, grouped_names, List.mem_append, List.mem_filter,
      List.mem_filter]
    cases (KeptParams.ofClass c).groupFields.contains f.name <;> simp [named]
  have count : (new.bindings.map (·.name)).count f.name =
      ((Param.bindingsOf (Param.unread old.all)).map (·.name)).count f.name + 1 := by
    have names : (((ConstructorPlan.ofClass style c).plain ++
      (ConstructorPlan.ofClass style c).grouped).map
        fun form => Binding.ofForm form.1 form.2).map (·.name) =
          ((ConstructorPlan.ofClass style c).plain ++ (ConstructorPlan.ofClass style c).grouped).map
            (·.1) := by
      rw [List.map_map]
      rfl
    rw [(bindings.map (·.name)).count_eq, List.map_append, List.count_append, names,
      List.count_eq_one_of_mem nodup written]
  constructor
  · rintro ⟨once, -⟩ b member same
    by_contra other
    have again : f.name ∈ (Param.bindingsOf (Param.unread old.all)).map (·.name) :=
      List.mem_map.mpr ⟨b, (Param.mem_bindingsOf_unread formed.each).mpr ⟨member, other⟩, same⟩
    have positive := List.count_pos_iff.mpr again
    omega
  · intro plain
    have gone : f.name ∉ (Param.bindingsOf (Param.unread old.all)).map (·.name) := by
      intro again
      obtain ⟨b, member, same⟩ := List.mem_map.mp again
      obtain ⟨here, other⟩ := (Param.mem_bindingsOf_unread formed.each).mp member
      exact other (plain b here same)
    refine ⟨by rw [count, List.count_eq_zero.mpr gone], ?_⟩
    intro b member same o here own expression given
    rcases List.mem_append.mp (bindings.mem_iff.mp member) with unread | chosen
    · exact absurd (List.mem_map.mpr ⟨b, unread, same⟩) gone
    · obtain ⟨⟨name, form⟩, inside, rfl⟩ := List.mem_map.mp chosen
      have sound := isSound_ofClass style readable inside
      obtain ⟨f', -, byName, rfl, rfl⟩ := exists_field_of_mem style inside
      have found := lookup_defaults formed distinct here (plain o here own) (own ▸ named)
      have same : f'.name = o.name := same.trans own.symm
      rw [Binding.expression?_ofForm sound, defaults, same, found, given]
      rfl

theorem all_rearranged {style : Style} {ctor : Constructor} (found : c.ctor = some ctor)
    (complete : ctor.lastLine.isNone = false)
    (styles : if old.inBracket then ∃ bracket, old.group.map (·.1) = some bracket ∧
        (KeptParams.ofClass c).style = CtorParts.listStyle bracket ∧
          (KeptParams.ofClass c).group = none
      else (KeptParams.ofClass c).style = .positional ∧
        (KeptParams.ofClass c).group = old.group.map (·.1)) :
    ((ConstructorPlan.ofClass style c).rearranged old key).all =
      (key.map Param.other ++ Param.unread old.main ++
        (ConstructorPlan.ofClass style c).plain.map Param.ofForm) ++
        (Param.unread old.side ++ (ConstructorPlan.ofClass style c).grouped.map Param.ofForm) := by
  apply ParamLayout.all_arrange
  intro alone
  have none : (KeptParams.ofClass c).group = none := by
    split_ifs at styles with bracket
    · obtain ⟨_, -, -, none⟩ := styles
      exact none
    · rw [styles.2, alone.resolve_left bracket]
      rfl
  rw [ParamLayout.side_eq_nil alone, grouped_eq_nil (group_of_none found complete none).2]
  rfl

/-- What is written is what it is taken for. -/
theorem isFormed_rearranged {style : Style} (formed : old.IsFormed)
    (isKey : key = [] ∨ key = ["Key? key".toList])
    (each : ∀ form ∈ (ConstructorPlan.ofClass style c).plain ++
      (ConstructorPlan.ofClass style c).grouped,
      (Param.ofForm form).IsFormed)
    (all : ((ConstructorPlan.ofClass style c).rearranged old key).all =
      (key.map Param.other ++ Param.unread old.main ++
        (ConstructorPlan.ofClass style c).plain.map Param.ofForm) ++
        (Param.unread old.side ++ (ConstructorPlan.ofClass style c).grouped.map Param.ofForm)) :
    ((ConstructorPlan.ofClass style c).rearranged old key).IsFormed := by
  have sides : ∀ p ∈ old.main ++ old.side, p.IsFormed := by
    rw [old.main_append_side]
    exact formed.each
  have keys : ∀ p ∈ key.map Param.other, p.IsFormed ∧ CtorParts.opensGroup p.text = false := by
    rcases isKey with rfl | rfl
    · simp
    · intro p member
      rw [List.mem_singleton.mp member]
      exact ⟨Param.isFormed_key, rfl⟩
  refine ⟨?_, ?_⟩
  · rw [all]
    intro p member
    simp only [List.mem_append] at member
    rcases member with ((member | member) | member) | (member | member)
    · exact (keys p member).1
    · exact sides p (List.mem_append_left _ (List.mem_filter.mp member).1)
    · obtain ⟨form, inside, rfl⟩ := List.mem_map.mp member
      exact each form (List.mem_append_left _ inside)
    · exact sides p (List.mem_append_right _ (List.mem_filter.mp member).1)
    · obtain ⟨form, inside, rfl⟩ := List.mem_map.mp member
      exact each form (List.mem_append_right _ inside)
  · intro p member
    rw [ConstructorPlan.rearranged, ParamLayout.arrange] at member
    split_ifs at member with bracket
    · cases member
    · simp only [List.mem_append] at member
      rcases member with (member | member) | member
      · exact (keys p member).2
      · have inside := (List.mem_filter.mp member).1
        rw [ParamLayout.main, if_neg bracket] at inside
        exact formed.opened p inside
      · obtain ⟨form, -, rfl⟩ := List.mem_map.mp member
        rw [show (Param.ofForm form).text = _ from Binding.text_ofForm form.1 form.2]
        exact ParamForm.opensGroup_text _ _

/-- The constructor that is written is laid out like the old one. -/
theorem exists_laysOut_rearranged {text : Text} {ctor : Constructor} (member : c ∈ scan text)
    (valid : c.isValid)
    (found : c.ctor = some ctor) (complete : ctor.lastLine.isSome) (formed : old.IsFormed)
    (read : ((CtorParts.ofText ctor.text c.name).style,
      (CtorParts.ofText ctor.text c.name).params) =
      CtorParts.readOf (old.outside.map Param.text) old.groupTexts)
    {s : Surroundings} (styled : s.style.indent? = .ok s.indent) :
    let plan := ConstructorPlan.ofClass s.style c
    ∃ (key : List Text) (lead inner rest : Text),
      (key = [] ∨ c.header.isWidget ∧ key = ["Key? key".toList]) ∧
      constructorText s c = Text.indentBlock s.indent
        (lead ++ (c.name ++ '(' :: (inner ++ ')' :: rest))) ∧
      (lead = [] ∨ lead = "const ".toList) ∧ (plan.rearranged old key).LaysOut inner ∧
      (plan.rearranged old key).all =
        (key.map Param.other ++ Param.unread old.main ++ plan.plain.map Param.ofForm) ++
          (Param.unread old.side ++ plan.grouped.map Param.ofForm) ∧
      ((∀ name ∈ c.fieldNames, ∀ d ∈ name, isNameChar d) → (plan.rearranged old key).IsFormed) := by
  intro plan
  have closed : ctor.lastLine.isNone = false := by
    rw [Option.isNone_eq_false_iff]
    exact complete
  have readable := KeptParams.isReadable_ofClass member found complete
      (ParamLayout.wellNested formed read)
  obtain ⟨key, isKey, extras, groupExtras, defaults, styles⟩ :=
    ofClass_of_layout found complete read
  obtain ⟨lead, inner, gap, whole, written, leads, -⟩ :=
    text_laysOut s.style valid found closed readable (isBlankText_of_indent? styled)
  obtain ⟨outside, group⟩ := @rearranged_texts old key plan extras groupExtras styles
  have all := @all_rearranged c old key s.style ctor found closed styles
  rw [outside, group] at written
  refine ⟨key, lead, inner, gap ++ plan.kept.rest, isKey, ?_, leads, written, all, ?_⟩
  · rw [constructorText, whole]
  · intro names
    refine isFormed_rearranged formed (isKey.imp_right And.right) ?_ all
    rintro ⟨name, form⟩ inside
    obtain ⟨f, field, -, rfl, -⟩ := exists_field_of_mem s.style inside
    exact Param.isFormed_ofForm (isSound_ofClass s.style readable inside)
      (name_ne_nil_of_mem_scan member f field)
      (names f.name (List.mem_map_of_mem field)) (closed_ofClass s.style formed defaults inside)

end Written

/-- The constructor that is written keeps every parameter that binds no field, and a field
    has one parameter, with the default value that it had, just when its old parameter was
    plain. -/
theorem constructorText_bindsOnce_iff {text : Text} {c : ClassDecl} {ctor : Constructor}
    (member : c ∈ scan text) (valid : c.isValid)
    (names : ∀ name ∈ c.fieldNames, ∀ d ∈ name, isNameChar d) (found : c.ctor = some ctor)
    (complete : ctor.lastLine.isSome) {old : ParamLayout} {lead inner rest : Text}
    (isLead : IsLead lead) (split : ctor.text = lead ++ (c.name ++ '(' :: (inner ++ ')' :: rest)))
    (laid : old.LaysOut inner) (formed : old.IsFormed)
    (distinct : (old.bindings.map (·.name)).Nodup) {s : Surroundings}
    (styled : s.style.indent? = .ok s.indent) :
    ∃ (new : ParamLayout) (lead' inner' rest' : Text) (key : List Text),
      constructorText s c = Text.indentBlock s.indent
        (lead' ++ (c.name ++ '(' :: (inner' ++ ')' :: rest'))) ∧
      (lead' = [] ∨ lead' = "const ".toList) ∧ new.LaysOut inner' ∧ new.IsFormed ∧
      (key = [] ∨ c.header.isWidget ∧ key = ["Key? key".toList]) ∧ old.Keeps new key ∧
      ∀ f ∈ c.fields, old.BindsOnce new f.name ↔ ∀ b ∈ old.bindings, b.name = f.name →
        b.IsPlain := by
  have read : ((CtorParts.ofText ctor.text c.name).style,
    (CtorParts.ofText ctor.text c.name).params) =
      CtorParts.readOf (old.outside.map Param.text) old.groupTexts := by
    rw [split]
    exact ParamLayout.ofText_laysOut formed isLead (isLabel_of_mem_scan member) laid
  have readable := KeptParams.isReadable_ofClass member found complete
      (ParamLayout.wellNested formed read)
  obtain ⟨-, -, -, -, defaults, -⟩ := ofClass_of_layout found complete read
  obtain ⟨key, lead', inner', rest', isKey, written, leads, laid', all, formed'⟩ :=
    exists_laysOut_rearranged member valid found complete formed read styled
  refine ⟨_, lead', inner', rest', key, written, leads, laid', formed' names, isKey, ?_, ?_⟩
  · have sides : ∀ p ∈ old.main ++ old.side, p.IsFormed := by
      rw [old.main_append_side]
      exact formed.each
    apply ParamLayout.keeps_arrange
    · rw [Param.othersOf_append, Param.othersOf_append, Param.othersOf_other, Param.othersOf_ofForm,
        List.append_nil,
        Param.othersOf_unread fun p inside => sides p (List.mem_append_left _ inside)]
    · rw [Param.othersOf_append, Param.othersOf_ofForm, List.append_nil,
        Param.othersOf_unread fun p inside => sides p (List.mem_append_right _ inside)]
  · intro f field
    exact bindsOnce_rearranged_iff valid formed distinct readable defaults
      (bindings_rearranged all) field

/-- A name with a dollar sign is not read, so its field is bound twice. The default value
    of the other field is kept, and so is the parameter that binds none. -/
theorem constructorText_bindsOnce_dollar :
    let text : Text :=
      "class A \x7b\n  final int $x;\n  final int y;\n\n  A(\x7brequired this.$x, this.y = 2, int? z\x7d);\n\x7d\n"
    let ctor : Constructor :=
      { text := "  A(\x7brequired this.$x, this.y = 2, int? z\x7d);",
        firstLine := 5, lastLine := some 5 }
    let c : ClassDecl :=
      { header := .parse "class A \x7b", firstLine := 1, lastLine := some 6,
        lines := text.lines.take 6
        fields := [{ rawType := "int", key := "$x", name := "$x", line := 2 },
          { rawType := "int", key := "y", name := "y", line := 3 }]
        ctor := some ctor }
    let s : Surroundings := { style := {}, indent := "  ", flutter := false }
    let old : ParamLayout :=
      { outside := []
        group := some (.named,
          [.binds ⟨"required this.", "$x", "", none⟩, .binds ⟨"this.", "y", " ", some " 2"⟩,
          .other "int? z"]) }
    c ∈ scan text ∧
      constructorText s c =
        "  A(\x7b\n    required this.$x,\n    int? z,\n    required this.$x,\n    this.y = 2,\n  \x7d);".toList ∧
      ∃ (new : ParamLayout) (lead inner rest : Text),
        constructorText s c = Text.indentBlock s.indent
          (lead ++ (c.name ++ '(' :: (inner ++ ')' :: rest))) ∧
        (lead = [] ∨ lead = "const ".toList) ∧ new.LaysOut inner ∧ new.IsFormed ∧ old.Keeps new [] ∧
        ¬ old.BindsOnce new "$x".toList ∧ old.BindsOnce new "y".toList := by
  intro text ctor c s old
  obtain ⟨member, shown, valid, notWidget, names⟩ : c ∈ scan text ∧
      constructorText s c =
        "  A(\x7b\n    required this.$x,\n    int? z,\n    required this.$x,\n    this.y = 2,\n  \x7d);".toList ∧
      c.isValid ∧ ¬ c.header.isWidget ∧
      ∀ name ∈ c.fieldNames, ∀ d ∈ name, isNameChar d := by
    decide +kernel
  have laid : old.LaysOut "\x7brequired this.$x, this.y = 2, int? z\x7d" := by
    have last := @Text.Lists.last "int? z".toList " ".toList [] rfl rfl
    have second := @Text.Lists.cons "this.y = 2".toList " ".toList [] _ _ rfl rfl last
    have first := @Text.Lists.cons "required this.$x".toList [] [] _ _ rfl rfl second
    exact .bracket .nil (show Text.isBlankText [] from rfl)
      (show Text.isBlankText [] from rfl) first
  have value : FieldParam.IsExpression "2".toList :=
    ⟨⟨⟨by decide, by decide, by decide⟩, by decide⟩, by decide⟩
  have formed : old.IsFormed := by
    refine ⟨?_, by decide⟩
    intro p inside
    simp only [ParamLayout.all, ParamLayout.inside, old, Option.map_some, Option.getD_some,
      List.nil_append, List.mem_cons, List.not_mem_nil, or_false] at inside
    rcases inside with rfl | rfl | rfl
    · exact @Param.isFormed_ofForm "$x".toList .required (by rintro _ ⟨⟩) (by decide) (by decide)
        (by rintro _ ⟨⟩)
    · exact @Param.isFormed_ofForm "y".toList (.withDefault "2") (by rintro _ ⟨⟩; exact value)
        (by decide) (by decide)
        (by rintro _ ⟨⟩; decide +kernel)
    · refine ⟨⟨⟨by decide, by decide, by decide⟩, by decide⟩, by decide +kernel, ?_⟩
      intro mark rest isMark same
      have behind := FieldParam.withoutMark_append isMark rest
      rw [← same] at behind
      cases behind
  have split : ctor.text = "  ".toList ++
      (c.name ++ '(' :: ("\x7brequired this.$x, this.y = 2, int? z\x7d".toList ++ ')' ::
        ";".toList)) := by decide
  obtain ⟨new, lead, inner, rest, key, whole, leads, written, formed', isKey, keeps, binds⟩ :=
    constructorText_bindsOnce_iff member valid names rfl rfl
      (.inl rfl) split laid formed (by decide)
      (show s.style.indent? = .ok s.indent from rfl)
  have noKey : key = [] := isKey.resolve_right fun h => notWidget h.1
  subst noKey
  refine ⟨member, shown, new, lead, inner, rest, whole, leads, written, formed', keeps, ?_, ?_⟩
  · intro once
    have plain := (binds _ (List.mem_cons_self)).mp once ⟨"required this.", "$x", "", none⟩
        (by decide) rfl
    exact absurd (plain.name '$' (by decide)) (by decide)
  · refine (binds _ (List.mem_cons_of_mem _ List.mem_cons_self)).mpr ?_
    intro b inside same
    have bindings : old.bindings = [⟨"required this.", "$x", "", none⟩,
      ⟨"this.", "y", " ", some " 2"⟩] := by decide
    rw [bindings] at inside
    simp only [List.mem_cons, List.not_mem_nil, or_false] at inside
    rcases inside with rfl | rfl
    · exact absurd same (by decide)
    · exact ⟨⟨[], .unmarked, rfl⟩, by decide, rfl, by decide⟩

end ValueClass.Dart
