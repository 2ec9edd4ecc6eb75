import ValueClass.Proofs.Member.Bound

/-! # What a constructor takes by position

The parameters outside of braces are taken by position, those in square brackets last.
`copyWith` and `fromMap` pass their fields in the order of declaration, so they pass what
is taken only if the constructor takes the fields in that order, and leaves none out but
those that it takes in braces.
-/

namespace ValueClass.Dart

open FieldParam (isNameChar)

/-- A text is a constructor of a class with the given parameters. -/
def IsConstructor (name t : Text) (l : ParamLayout) : Prop :=
  ∃ lead inner rest, IsLead lead ∧ t = lead ++ (name ++ '(' :: (inner ++ ')' :: rest)) ∧
    l.LaysOut inner

theorem isLead_of_eq {lead : Text} (leads : lead = [] ∨ lead = "const ".toList) : IsLead lead := by
  rcases leads with rfl | rfl
  · exact .inl rfl
  · exact .inr ⟨[], [], rfl, rfl, rfl⟩

theorem IsConstructor.reads {name t : Text} {l : ParamLayout} (h : IsConstructor name t l)
    (label : IsLabel name) (formed : l.IsFormed) :
    ((CtorParts.ofText t name).style, (CtorParts.ofText t name).params) =
      CtorParts.readOf (l.outside.map Param.text) l.groupTexts := by
  obtain ⟨lead, inner, rest, isLead, rfl, laid⟩ := h
  exact ParamLayout.ofText_laysOut formed isLead label laid

/-- The fields that some parameters bind, in order. -/
def Param.names (params : List Param) : List Text :=
  (bindingsOf params).map (·.name)

namespace ParamLayout

def within (l : ParamLayout) (bracket : GroupStyle) : List Param :=
  match l.group with
  | some (given, inside) => if given = bracket then inside else []
  | none => []

/-- The parameters that are taken by position. -/
def positional (l : ParamLayout) : List Param :=
  l.outside ++ l.within .optional

/-- The fields that are taken by position, in order. -/
def taken (l : ParamLayout) : List Text :=
  Param.names l.positional

/-- A plain parameter in brackets of a kind binds a field. -/
def BindsIn (l : ParamLayout) (bracket : GroupStyle) (field : Text) : Prop :=
  ∃ b ∈ Param.bindingsOf (l.within bracket), b.IsPlain ∧ b.name = field

def inBraces (l : ParamLayout) : Bool :=
  l.outside.isEmpty && l.group.any fun g => g.1 = .named

/-- The fields that are taken by position are declared in that order, and the others have
    plain parameters in braces. -/
structure TakesInOrder (l : ParamLayout) (fields : List Text) : Prop where
  order : l.taken.Sublist fields
  others : ∀ field ∈ fields, field ∈ l.taken ↔ ¬ l.BindsIn .named field

/-- The fields that are bound by position have plain parameters, and those in square
    brackets behind other parameters are declared last. -/
structure StaysInOrder (l : ParamLayout) (fields : List Text) : Prop where
  plain : ∀ b ∈ Param.bindingsOf l.positional, b.IsPlain
  last : l.outside ≠ [] → fields.Pairwise fun a b => l.BindsIn .optional a → l.BindsIn .optional b

end ParamLayout

theorem ParamLayout.inBraces_of_mem_taken (l : ParamLayout) {field : Text}
    (taken : field ∈ l.taken) :
    l.inBraces = false := by
  obtain ⟨outside, group⟩ := l
  cases group with
  | none => simp [inBraces]
  | some g =>
      obtain ⟨bracket, inside⟩ := g
      cases outside with
      | cons p rest => rfl
      | nil =>
          cases bracket with
          | named => cases taken
          | optional => rfl

theorem ParamLayout.positional_of_alone (l : ParamLayout) (open_ : l.inBraces = false)
    (alone : l.inBracket ∨ l.group = none) : l.positional = l.main := by
  obtain ⟨outside, group⟩ := l
  cases group with
  | none => simp [positional, main, within, inBracket]
  | some g =>
      obtain ⟨bracket, inside⟩ := g
      cases outside <;> cases bracket <;> simp_all [positional, main, within, inBracket, inBraces,
        ParamLayout.inside]

theorem ParamLayout.alone_of_inBracket (l : ParamLayout) (alone : l.inBracket ∨ l.group = none) :
    l.outside = [] ∨ l.within .optional = [] := by
  rcases alone with bracket | bare
  · rw [inBracket, Bool.and_eq_true, List.isEmpty_iff] at bracket
    exact .inl bracket.1
  · exact .inr (by simp [within, bare])

namespace Param

theorem names_append (a b : List Param) : names (a ++ b) = names a ++ names b := by
  rw [names, bindingsOf_append, List.map_append]
  rfl

theorem names_other (texts : List Text) : names (texts.map .other) = [] := by
  rw [names, bindingsOf_other]
  rfl

theorem names_ofForm (forms : List (Text × ParamForm)) :
    names (forms.map ofForm) = forms.map (·.1) := by
  rw [names, bindingsOf_ofForm, List.map_map]
  rfl

theorem names_unread_eq_nil_iff {params : List Param} (formed : ∀ p ∈ params, p.IsFormed) :
    names (unread params) = [] ↔ ∀ b ∈ bindingsOf params, b.IsPlain := by
  rw [names, List.map_eq_nil_iff, List.eq_nil_iff_forall_not_mem]
  exact forall_congr' fun b => by rw [mem_bindingsOf_unread formed]; tauto

end Param

/-! ## What is read -/

section Read

variable {c : ClassDecl} {ctor : Constructor} {old : ParamLayout}
  (found : c.ctor = some ctor) (formed : old.IsFormed)
  (read : ((CtorParts.ofText ctor.text c.name).style, (CtorParts.ofText ctor.text c.name).params) =
    CtorParts.readOf (old.outside.map Param.text) old.groupTexts)

include read in
theorem group_of_layout : (KeptParams.ofConstructor c ctor).group =
    if old.inBracket then none else old.group.map (·.1) := by
  obtain ⟨-, -, styles⟩ := ParamLayout.read_parts read
  rw [KeptParams.ofConstructor_eq]
  show Option.map _ (CtorParts.params _).2 = _
  split_ifs at styles ⊢
  · obtain ⟨bracket, -, -, alone⟩ := styles
    rw [alone]
    rfl
  · rw [styles.2, ParamLayout.groupTexts, Option.map_map]
    rfl

include formed read in
theorem mem_groupFields_iff {field : Text} (declared : field ∈ c.fieldNames) :
    field ∈ (KeptParams.ofConstructor c ctor).groupFields ↔
      ∃ b ∈ Param.bindingsOf old.side, b.IsPlain ∧ b.name = field := by
  obtain ⟨-, second, -⟩ := ParamLayout.read_parts read
  have sides : ∀ p ∈ old.side, p.IsFormed := fun p inside =>
    formed.each p (old.main_append_side ▸ List.mem_append_right _ inside)
  rw [KeptParams.ofConstructor_eq]
  show field ∈ (KeptParams.boundOf _ _).map _ ↔ _
  rw [second, KeptParams.boundOf, List.mem_map]
  constructor
  · rintro ⟨bound, member, rfl⟩
    obtain ⟨b, inside, plain, rfl⟩ := (Param.mem_read_iff sides).mp (List.mem_filter.mp member).1
    exact ⟨b, inside, plain, rfl⟩
  · rintro ⟨b, inside, plain, rfl⟩
    refine ⟨⟨b.name, b.expression?⟩, List.mem_filter.mpr ⟨?_, by simpa using declared⟩, rfl⟩
    exact (Param.mem_read_iff sides).mpr ⟨b, inside, plain, rfl⟩

include found formed read in
theorem mem_namedFields_of_layout (unnamed : ¬ c.hasNamedConstructor) {field : Text}
    (declared : field ∈ c.fieldNames) :
    field ∈ c.namedFields ↔ old.inBraces = false ∧ old.BindsIn .named field := by
  rw [mem_namedFields_iff found unnamed declared, group_of_layout read,
    mem_groupFields_iff formed read declared]
  obtain ⟨outside, group⟩ := old
  cases group with
  | none => simp [ParamLayout.inBracket, ParamLayout.BindsIn, ParamLayout.within, Param.bindingsOf]
  | some g =>
      obtain ⟨bracket, inside⟩ := g
      cases outside <;> cases bracket <;>
        simp [ParamLayout.inBracket, ParamLayout.inBraces, ParamLayout.BindsIn, ParamLayout.within,
          ParamLayout.side, ParamLayout.inside, Param.bindingsOf]

theorem passedByPosition_of_named (named : c.hasNamedConstructor) : c.passedByPosition = [] := by
  rw [passedByPosition_eq_nil_iff, namedFields_eq_fieldNames named]
  exact fun _ member => member

/-! ## A constructor that stays -/

include found formed read in
theorem passed_eq_taken_iff (valid : c.isValid) : c.passedByPosition = old.taken ↔
    if c.hasNamedConstructor then old.taken = []
      else old.inBraces = false ∧ old.TakesInOrder c.fieldNames := by
  by_cases named : c.hasNamedConstructor
  · rw [if_pos named, passedByPosition_of_named named]
    exact eq_comm
  · rw [if_neg named, passedByPosition_eq_iff_callsInOrder valid, ClassDecl.CallsInOrder]
    have names := fun field (declared : field ∈ c.fieldNames) =>
      mem_namedFields_of_layout found formed read named declared
    constructor
    · rintro ⟨order, each⟩
      have plain : old.inBraces = false := by
        obtain ⟨one, declared⟩ := List.exists_mem_of_ne_nil _ (distinct_of_isValid valid).1
        by_cases taken : one ∈ old.taken
        · exact old.inBraces_of_mem_taken taken
        · exact ((names one declared).mp (not_not.mp (mt (each one declared).mpr taken))).1
      exact ⟨plain, order,
        fun field declared => by rw [each field declared, names field declared]; simp [plain]⟩
    · rintro ⟨plain, order, others⟩
      exact ⟨order,
        fun field declared => by rw [others field declared, names field declared]; simp [plain]⟩

end Read

/-! ## A constructor that is written -/

section Written

variable {c : ClassDecl} {ctor : Constructor} {old : ParamLayout} (found : c.ctor = some ctor)
  (complete : ctor.lastLine.isNone = false) (formed : old.IsFormed)
  (read : ((CtorParts.ofText ctor.text c.name).style, (CtorParts.ofText ctor.text c.name).params) =
    CtorParts.readOf (old.outside.map Param.text) old.groupTexts)

theorem names_of_plan (style : Style) {ctor : Constructor} (found : c.ctor = some ctor)
    (complete : ctor.lastLine.isNone = false) :
    let fields := (KeptParams.ofConstructor c ctor).groupFields
    let plan := ConstructorPlan.ofClass style c
    plan.plain.map (·.1) = (c.fieldNames.filter fun name => !fields.contains name) ∧
      plan.grouped.map (·.1) = c.fieldNames.filter fun name => fields.contains name := by
  intro fields plan
  obtain ⟨-, -, same⟩ := kept_of_complete found complete
  rw [plain_names, grouped_names, same]
  exact ⟨rfl, rfl⟩

/-- What is taken of the list that is written: the parameters that were not read come
    before those of the fields. -/
theorem taken_rearranged (plan : ConstructorPlan) (old : ParamLayout) (key : List Text) :
    (plan.rearranged old key).taken =
      if old.inBraces then []
      else Param.names (Param.unread old.main) ++ plan.plain.map (·.1) ++
        if old.inBracket then [] else
          if old.group.map (·.1) = some .optional then Param.names (Param.unread old.side) ++
            plan.grouped.map (·.1) else [] := by
  have main : Param.names
      (key.map Param.other ++ Param.unread old.main ++ plan.plain.map Param.ofForm) =
      Param.names (Param.unread old.main) ++ plan.plain.map (·.1) := by
    rw [Param.names_append, Param.names_append, Param.names_other, Param.names_ofForm,
      List.nil_append]
  have side : Param.names (Param.unread old.side ++ plan.grouped.map Param.ofForm) =
      Param.names (Param.unread old.side) ++ plan.grouped.map (·.1) := by
    rw [Param.names_append, Param.names_ofForm]
  rw [← main, ← side, ConstructorPlan.rearranged]
  generalize key.map Param.other ++ Param.unread old.main ++ plan.plain.map Param.ofForm = first
  generalize Param.unread old.side ++ plan.grouped.map Param.ofForm = second
  obtain ⟨outside, group⟩ := old
  have none : Param.names [] = [] := rfl
  cases group with
  | none => simp [ParamLayout.taken, ParamLayout.positional, ParamLayout.arrange,
      ParamLayout.inBracket, ParamLayout.inBraces, ParamLayout.within]
  | some g =>
      obtain ⟨bracket, inside⟩ := g
      cases outside <;> cases bracket <;>
        simp [ParamLayout.taken, ParamLayout.positional, ParamLayout.arrange, ParamLayout.inBracket,
          ParamLayout.inBraces, ParamLayout.within, Param.names_append, none]

theorem passedByPosition_of_unnamed (unnamed : ¬ c.hasNamedConstructor) {ctor : Constructor}
    (found : c.ctor = some ctor) (other : (KeptParams.ofConstructor c ctor).group ≠ some .named) :
    c.passedByPosition = c.fieldNames := by
  rw [ClassDecl.passedByPosition, List.filter_eq_self]
  intro field declared
  have absent : field ∉ c.namedFields :=
    fun inside => other ((mem_namedFields_iff found unnamed declared).mp inside).1
  simpa using absent

theorem passedByPosition_of_braces (unnamed : ¬ c.hasNamedConstructor) {ctor : Constructor}
    (found : c.ctor = some ctor) (braces : (KeptParams.ofConstructor c ctor).group = some .named) :
    c.passedByPosition =
      c.fieldNames.filter fun name =>
        !(KeptParams.ofConstructor c ctor).groupFields.contains name := by
  apply List.filter_congr
  intro field declared
  have same := mem_namedFields_iff found unnamed declared
  rw [braces] at same
  simp [same]

theorem eq_append_iff {fields first second third fourth : List Text}
    (size : fields.length = second.length + fourth.length) :
    fields = first ++ second ++ (third ++ fourth) ↔
      (first = [] ∧ third = []) ∧ second ++ fourth = fields := by
  constructor
  · intro same
    have lengths := congrArg List.length same
    simp only [List.length_append] at lengths
    obtain rfl := List.length_eq_zero_iff.mp (show first.length = 0 by omega)
    obtain rfl := List.length_eq_zero_iff.mp (show third.length = 0 by omega)
    exact ⟨⟨rfl, rfl⟩, same.symm⟩
  · rintro ⟨⟨rfl, rfl⟩, same⟩
    exact same.symm

theorem staysInOrder_iff_of_alone {names : List Text}
    (alone : old.outside = [] ∨ old.within .optional = []) :
    old.StaysInOrder names ↔ ∀ b ∈ Param.bindingsOf old.positional, b.IsPlain := by
  refine ⟨fun h => h.plain, fun plain => ⟨plain, fun behind => ?_⟩⟩
  refine List.pairwise_of_forall fun a b ⟨binding, inside, _⟩ => ?_
  rw [alone.resolve_left behind] at inside
  cases inside

include found formed read in
theorem passedByPosition_ne_nil_of_braces (valid : c.isValid) (unnamed : ¬ c.hasNamedConstructor)
    (braces : old.inBraces) : c.passedByPosition ≠ [] := by
  rw [ne_eq, passedByPosition_eq_nil_iff]
  intro all
  obtain ⟨one, declared⟩ := List.exists_mem_of_ne_nil _ (distinct_of_isValid valid).1
  have other := ((mem_namedFields_of_layout found formed read unnamed declared).mp
    (all one declared)).1
  rw [braces] at other
  cases other

section Rearranged

variable (unnamed : ¬ c.hasNamedConstructor) (open_ : old.inBraces = false) (style : Style)
  (key : List Text)

include found complete formed read unnamed open_

/-- A bracket with nothing in front of it is not read as a group. -/
theorem passed_eq_taken_of_alone (alone : old.inBracket ∨ old.group = none) :
    c.passedByPosition = ((ConstructorPlan.ofClass style c).rearranged old key).taken ↔
      old.StaysInOrder c.fieldNames := by
  have main : ∀ p ∈ old.main, p.IsFormed := fun p inside =>
    formed.each p (old.main_append_side ▸ List.mem_append_left _ inside)
  have none : (KeptParams.ofConstructor c ctor).group = none := by
    rw [group_of_layout read]
    rcases alone with bracket | bare
    · exact if_pos bracket
    · simp [bare]
  have last : ∀ more : List Text, (if old.inBracket then [] else
      if old.group.map (·.1) = some .optional then more else []) = [] := by
    intro more
    rcases alone with bracket | bare
    · exact if_pos bracket
    · simp [bare]
  rw [taken_rearranged, open_, if_neg Bool.false_ne_true, last, List.append_nil,
    (names_of_plan style found complete).1,
    passedByPosition_of_unnamed unnamed found (by simp [none]),
    groupFields_eq_nil none, staysInOrder_iff_of_alone (old.alone_of_inBracket alone),
    old.positional_of_alone open_ alone, ← Param.names_unread_eq_nil_iff main]
  simp

theorem passed_eq_taken_of_group (behind : ¬ old.inBracket) {bracket : GroupStyle}
    {inside : List Param} (given : old.group = some (bracket, inside)) :
    c.passedByPosition = ((ConstructorPlan.ofClass style c).rearranged old key).taken ↔
      old.StaysInOrder c.fieldNames := by
  have main : ∀ p ∈ old.main, p.IsFormed := fun p inside =>
    formed.each p (old.main_append_side ▸ List.mem_append_left _ inside)
  have side : ∀ p ∈ old.side, p.IsFormed := fun p inside =>
    formed.each p (old.main_append_side ▸ List.mem_append_right _ inside)
  have outer : old.main = old.outside := if_neg behind
  have inner : old.side = inside := by
    rw [ParamLayout.side, if_neg behind, ParamLayout.inside, given]; rfl
  obtain ⟨plain, grouped⟩ := names_of_plan style found complete
  have group := group_of_layout read
  rw [if_neg behind, given, Option.map_some] at group
  rw [taken_rearranged, open_, if_neg Bool.false_ne_true, plain, grouped, if_neg behind, given,
    Option.map_some]
  cases bracket with
  | named =>
      have none : old.within .optional = [] := by simp [ParamLayout.within, given]
      rw [passedByPosition_of_braces unnamed found group, staysInOrder_iff_of_alone (.inr none),
        ParamLayout.positional, none, List.append_nil, ← outer,
        ← Param.names_unread_eq_nil_iff main]
      simp
  | optional =>
      have all : old.within .optional = old.side := by simp [ParamLayout.within, given, inner]
      have filled : old.outside ≠ [] := by simpa [ParamLayout.inBracket, given] using behind
      have size : ∀ passes : Text → Bool, c.fieldNames.length =
          (c.fieldNames.filter fun name => !passes name).length +
            (c.fieldNames.filter passes).length := by
        intro passes
        rw [Nat.add_comm, ← List.length_eq_length_filter_add]
      have order : (c.fieldNames.Pairwise fun a b =>
        (KeptParams.ofConstructor c ctor).groupFields.contains a →
          (KeptParams.ofConstructor c ctor).groupFields.contains b) ↔
          c.fieldNames.Pairwise fun a b => old.BindsIn .optional a → old.BindsIn .optional b := by
        refine List.Pairwise.iff_of_mem fun {a b} first second => ?_
        rw [List.contains_iff_mem, List.contains_iff_mem, mem_groupFields_iff formed read first,
          mem_groupFields_iff formed read second, ParamLayout.BindsIn, ParamLayout.BindsIn, all]
      have split : (∀ b ∈ Param.bindingsOf old.positional, b.IsPlain) ↔
          (∀ b ∈ Param.bindingsOf old.main, b.IsPlain) ∧ ∀ b ∈ Param.bindingsOf old.side,
            b.IsPlain := by
        rw [ParamLayout.positional, all, ← outer, Param.bindingsOf_append, List.forall_mem_append]
      rw [if_pos rfl, passedByPosition_of_unnamed unnamed found (by simp [group]),
        eq_append_iff (size _), filter_append_filter_iff, Param.names_unread_eq_nil_iff main,
        Param.names_unread_eq_nil_iff side, order, ← split]
      exact ⟨fun h => ⟨h.1, fun _ => h.2⟩, fun h => ⟨h.plain, h.last filled⟩⟩

end Rearranged

include found complete formed read in
/-- Where the constructor is written anew, the members pass what it takes just when all
    parameters that are taken by position are read, and fields in square brackets behind
    others are declared last. -/
theorem passed_eq_taken_rearranged_iff (valid : c.isValid) (style : Style) (key : List Text) :
    let new := (ConstructorPlan.ofClass style c).rearranged old key
    c.passedByPosition = new.taken ↔
      if c.hasNamedConstructor then new.taken = []
        else old.inBraces = false ∧ old.StaysInOrder c.fieldNames := by
  intro new
  by_cases named : c.hasNamedConstructor
  · rw [if_pos named, passedByPosition_of_named named]
    exact eq_comm
  rw [if_neg named]
  by_cases braces : old.inBraces
  · have none : new.taken = [] := by rw [taken_rearranged, if_pos braces]
    rw [none]
    exact iff_of_false (passedByPosition_ne_nil_of_braces found formed read valid named braces)
      (by simp [braces])
  have open_ : old.inBraces = false := by simpa using braces
  rw [and_iff_right open_]
  by_cases alone : old.inBracket ∨ old.group = none
  · exact passed_eq_taken_of_alone found complete formed read named open_ style key alone
  · obtain ⟨behind, bracketed⟩ := not_or.mp alone
    obtain ⟨⟨bracket, inside⟩, given⟩ := Option.ne_none_iff_exists'.mp bracketed
    exact passed_eq_taken_of_group found complete formed read named open_ style key behind given

end Written

/-! ## A constructor that is new -/

section New

variable {c : ClassDecl}

theorem isReadable_new : ({} : KeptParams).IsReadable where
  extras := by rintro param ⟨⟩
  opened := by rintro - param ⟨⟩
  defaults := by rintro name expression ⟨⟩
  lead := .inl rfl
  rest := by decide

theorem kept_of_absent (absent : c.hasConstructor = false) : ∃ key rest,
    KeptParams.ofClass c = { ({} : KeptParams) with extras := key, rest } ∧
      (key = [] ∨ key = ["Key? key".toList]) ∧
      (KeptParams.ofClass c).IsReadable := by
  have same : KeptParams.ofClass c = if c.header.isWidget then ({} : KeptParams).withKey
      else {} := by
    have nothing : ∀ kept : KeptParams, kept = {} →
        (if c.header.isWidget then kept.withKey else kept) =
          if c.header.isWidget then ({} : KeptParams).withKey else {} := by
      rintro kept rfl
      rfl
    apply nothing
    cases found : c.ctor with
    | none => rfl
    | some ctor =>
        have incomplete : ctor.lastLine.isSome = false := by simpa
            [ClassDecl.hasConstructor, found] using absent
        simp [incomplete]
  rw [same]
  split
  · exact ⟨["Key? key".toList], _, rfl, .inr rfl, isReadable_new.withKey⟩
  · exact ⟨[], ";".toList, rfl, .inl rfl, isReadable_new⟩

/-- A constructor that is new takes all fields, and takes them in braces. -/
theorem exists_laysOut_new {text : Text} (member : c ∈ scan text) (valid : c.isValid)
    (absent : c.hasConstructor = false) {s : Surroundings} (blank : s.indent.isBlankText) :
    ∃ own l, constructorText s c = Text.indentBlock s.indent own ∧ IsConstructor c.name own l ∧
      ((∀ name ∈ c.fieldNames, ∀ d ∈ name, isNameChar d) → l.IsFormed) ∧ l.inBraces ∧
      l.bindings.map (·.name) = c.fieldNames := by
  obtain ⟨key, rest, taken, isKey, readable⟩ := kept_of_absent absent
  have names : (ConstructorPlan.ofClass s.style c).plain.map (·.1) = c.fieldNames := by
    rw [plain_names, taken]
    simp
  have sound : (∀ name ∈ c.fieldNames, ∀ d ∈ name, isNameChar d) →
      ∀ form ∈ (ConstructorPlan.ofClass s.style c).plain, (Param.ofForm form).IsFormed := by
    rintro named ⟨name, form⟩ inside
    have listed := List.mem_append_left (ConstructorPlan.ofClass s.style c).grouped inside
    obtain ⟨f, field, -, rfl, -⟩ := exists_field_of_mem s.style listed
    refine Param.isFormed_ofForm (isSound_ofClass s.style readable listed)
      (name_ne_nil_of_mem_scan member f field)
      (named f.name (List.mem_map_of_mem field)) ?_
    exact @closed_ofClass c ⟨[], none⟩
      s.style ⟨by simp [ParamLayout.all, ParamLayout.inside], by simp⟩
      (by rw [taken]; rfl) _ _ listed
  have kept : (ConstructorPlan.ofClass s.style c).kept =
      { ({} : KeptParams) with extras := key, rest } := taken
  rw [constructorText]
  generalize ConstructorPlan.ofClass s.style c = plan at names kept sound
  have filled : plan.plainTexts ≠ [] := by
    intro none
    have plain := (List.append_eq_nil_iff.mp none).2
    rw [List.map_eq_nil_iff] at plain
    rw [plain] at names
    exact (distinct_of_isValid valid).1 names.symm
  have texts : (key.map Param.other ++ plan.plain.map Param.ofForm).map Param.text =
      plan.plainTexts := by
    rw [List.map_append, Param.texts_ofForm, List.map_map, ConstructorPlan.plainTexts, kept]
    exact congrArg (· ++ _) (List.map_id _)
  obtain ⟨inner, list, laid⟩ := CtorParts.laysOut_listOf blank [] (some (.named, plan.plainTexts))
  have listText : plan.listText s.indent = '(' :: (inner ++ [')']) := by
    rw [ConstructorPlan.listText_of_style (by rw [kept]) filled, kept]
    exact list
  have whole : plan.text s.indent c.name = [] ++ (c.name ++ '(' :: (inner ++ ')' ::
      (Text.when (!(plan.kept.rest.isEmpty || plan.kept.rest.startsWith ";")) " " ++
        plan.kept.rest))) := by
    rw [ConstructorPlan.text, listText, kept]
    simp [Text.when]
  refine ⟨_, ⟨[], some (.named, key.map .other ++ plan.plain.map .ofForm)⟩, rfl,
    ⟨[], inner, _, .inl rfl, whole, ?_⟩, fun named => ⟨?_, by simp⟩, rfl, ?_⟩
  · rw [← texts] at laid
    exact laid
  · intro p inside
    rcases List.mem_append.mp (show p ∈ key.map Param.other ++ plan.plain.map Param.ofForm from
      inside) with extra | own
    · rcases isKey with rfl | rfl
      · cases extra
      · rw [List.mem_singleton.mp extra]
        exact Param.isFormed_key
    · obtain ⟨form, listed, rfl⟩ := List.mem_map.mp own
      exact sound named form listed
  · show Param.names _ = _
    rw [ParamLayout.all, ParamLayout.inside, List.nil_append, Option.map_some, Option.getD_some,
      Param.names_append, Param.names_other, Param.names_ofForm, names, List.nil_append]

end New

end ValueClass.Dart
