import ValueClass.Proofs.Generate.Run

/-! # Arguments by position

`copyWith` and `fromMap` pass a field by name where the constructor that was read
takes it so, and all others by position in the order of their declarations. After the
review that constructor stays, or another one is pending.
-/

namespace ValueClass

namespace Dart

/-! ## Lists of names -/

/-- A list is what a test keeps of a list of distinct items just when it is in
    order and holds the items that pass. -/
theorem eq_filter_iff {items kept : List Text} (distinct : items.Nodup) (passes : Text → Bool) :
    kept = items.filter passes ↔
      kept.Sublist items ∧ ∀ item ∈ items, item ∈ kept ↔ passes item := by
  constructor
  · rintro rfl
    refine ⟨List.filter_sublist, ?_⟩
    intro item member
    simp [member]
  · rintro ⟨order, same⟩
    induction order with
    | slnil => rfl
    | @cons kept items item order ih =>
        obtain ⟨first, distinct⟩ := List.nodup_cons.mp distinct
        have gone : ¬ passes item := fun h =>
          first (order.subset ((same item List.mem_cons_self).mpr h))
        rw [List.filter_cons_of_neg gone]
        exact ih distinct fun x member => same x (List.mem_cons_of_mem _ member)
    | @cons_cons kept items item order ih =>
        obtain ⟨first, distinct⟩ := List.nodup_cons.mp distinct
        rw [List.filter_cons_of_pos ((same item List.mem_cons_self).mp List.mem_cons_self)]
        congr 1
        apply ih distinct
        intro x member
        have other : x ≠ item := fun h => first (h ▸ member)
        rw [← same x (List.mem_cons_of_mem _ member)]
        simp [other]

/-- Moving the items that pass to the end changes nothing just when no other item
    comes after one of them. -/
theorem filter_append_filter_iff (items : List Text) (passes : Text → Bool) :
    (items.filter fun item => !passes item) ++ items.filter passes = items ↔
      items.Pairwise fun a b => passes a → passes b := by
  induction items with
  | nil => simp
  | cons item rest ih =>
      by_cases h : passes item
      · have failing : ((item :: rest).filter fun x => !passes x) = rest.filter fun x =>
            !passes x := by
          simp [h]
        rw [failing, List.filter_cons_of_pos h, List.pairwise_cons]
        constructor
        · intro same
          have none : (rest.filter fun x => !passes x) = [] := by
            cases split : rest.filter fun x => !passes x with
            | nil => rfl
            | cons x others =>
                have fails : x ∈ rest.filter fun x => !passes x := by simp [split]
                rw [split] at same
                obtain ⟨rfl, -⟩ := List.cons.inj same
                simp [h] at fails
          have all : ∀ x ∈ rest, passes x := by simpa using none
          exact ⟨fun x member _ => all x member,
            List.pairwise_of_forall_mem_list fun _ _ x member _ => all x member⟩
        · rintro ⟨later, -⟩
          have none : (rest.filter fun x => !passes x) = [] := by
            simpa using fun x member => later x member h
          have all : rest.filter passes = rest := by
            simpa using fun x member => later x member h
          rw [none, all, List.nil_append]
      · simp [h, ih]

theorem allDistinct_iff (names : List Text) : ClassDecl.allDistinct names ↔ names.Nodup := by
  induction names with
  | nil => simp [ClassDecl.allDistinct]
  | cons name rest ih => simp [ClassDecl.allDistinct, ih]

theorem distinct_of_isValid {c : ClassDecl} (valid : c.isValid) :
    c.fieldNames ≠ [] ∧ c.fieldNames.Nodup := by
  rw [← allDistinct_iff]
  simp only [ClassDecl.isValid, ClassDecl.issue?] at valid
  split at valid
  · simp at valid
  · rename_i some
    split at valid
    · simp at valid
    · split at valid
      · simp at valid
      · rename_i distinct
        refine ⟨?_, by simpa using distinct⟩
        simpa [ClassDecl.fieldNames] using some

/-! ## What is passed and what is taken -/

/-- The fields that `copyWith` and `fromMap` pass by position. -/
def ClassDecl.passedByPosition (c : ClassDecl) : List Text :=
  c.fieldNames.filter fun name => !c.namedFields.contains name

/-- What is passed are the given fields: they come as they are declared, and no other
    field is passed by position. -/
def ClassDecl.CallsInOrder (c : ClassDecl) (taken : List Text) : Prop :=
  taken.Sublist c.fieldNames ∧ ∀ name ∈ c.fieldNames, name ∈ taken ↔ name ∉ c.namedFields

theorem passedByPosition_eq_iff_callsInOrder {c : ClassDecl} (valid : c.isValid)
    (taken : List Text) :
    c.passedByPosition = taken ↔ c.CallsInOrder taken := by
  rw [eq_comm, ClassDecl.passedByPosition, eq_filter_iff (distinct_of_isValid valid).2,
    ClassDecl.CallsInOrder]
  simp

section Rewritten

variable {c : ClassDecl} (style : Style)

theorem plain_names :
    (ConstructorPlan.ofClass style c).plain.map (·.1) =
      c.fieldNames.filter fun name => !(KeptParams.ofClass c).groupFields.contains name := by
  simp [ConstructorPlan.ofClass, ClassDecl.fieldNames, List.filter_map, Function.comp_def]

theorem grouped_names :
    (ConstructorPlan.ofClass style c).grouped.map (·.1) =
      c.fieldNames.filter fun name => (KeptParams.ofClass c).groupFields.contains name := by
  simp [ConstructorPlan.ofClass, ClassDecl.fieldNames, List.filter_map, Function.comp_def]

theorem kept_of_complete {ctor : Constructor} (found : c.ctor = some ctor)
    (complete : ctor.lastLine.isNone = false) :
    (KeptParams.ofClass c).style = (KeptParams.ofConstructor c ctor).style ∧
      (KeptParams.ofClass c).group = (KeptParams.ofConstructor c ctor).group ∧
      (KeptParams.ofClass c).groupFields = (KeptParams.ofConstructor c ctor).groupFields := by
  have some : ctor.lastLine.isSome := by
    cases h : ctor.lastLine <;> simp_all
  simp only [KeptParams.ofClass, found, some, ↓reduceIte]
  split <;> exact ⟨rfl, rfl, rfl⟩

/-- The fields that are read to be named, where a constructor does not look named
    as a whole. -/
theorem mem_namedFields_iff {ctor : Constructor} (found : c.ctor = some ctor)
    (plain : ¬ c.hasNamedConstructor) {name : Text} (member : name ∈ c.fieldNames) :
    name ∈ c.namedFields ↔ (KeptParams.ofConstructor c ctor).group = some .named ∧
      name ∈ (KeptParams.ofConstructor c ctor).groupFields := by
  simp only [ClassDecl.namedFields, found, plain, KeptParams.ofConstructor, KeptParams.boundOf,
    Bool.false_eq_true, ↓reduceIte]
  cases params : (CtorParts.ofText ctor.text c.name).params with
  | mk outside group =>
      cases group with
      | none => simp
      | some group =>
          obtain ⟨bracket, grouped⟩ := group
          cases bracket with
          | optional => simp
          | named =>
              simp only [List.mem_map, List.mem_filterMap, Option.map_some, true_and,
                Option.getD_some, List.mem_filter, List.contains_iff_mem]
              constructor
              · rintro ⟨p, bound, rfl⟩
                exact ⟨p, ⟨bound, member⟩, rfl⟩
              · rintro ⟨p, ⟨bound, -⟩, rfl⟩
                exact ⟨p, bound, rfl⟩

theorem namedFields_eq_fieldNames (named : c.hasNamedConstructor) :
    c.namedFields = c.fieldNames := by
  simp only [ClassDecl.namedFields, named, ↓reduceIte]
  split <;> rfl

theorem group_eq_none_of_named {ctor : Constructor}
    (named : (KeptParams.ofConstructor c ctor).style = .named) :
    (KeptParams.ofConstructor c ctor).group = none := by
  have style : (CtorParts.ofText ctor.text c.name).style = .named := named
  simp [KeptParams.ofConstructor, CtorParts.params, style]

theorem groupFields_eq_nil {ctor : Constructor}
    (alone : (KeptParams.ofConstructor c ctor).group = none) :
    (KeptParams.ofConstructor c ctor).groupFields = [] := by
  simp only [KeptParams.ofConstructor, Option.map_eq_none_iff] at alone ⊢
  simp [alone, KeptParams.boundOf]

theorem passedByPosition_eq_nil_iff :
    c.passedByPosition = [] ↔ ∀ name ∈ c.fieldNames, name ∈ c.namedFields := by
  simp [ClassDecl.passedByPosition]

end Rewritten

/-! ## The constructor after a run -/

/-- No constructor is pending: the one that was read, if any, stays. -/
def Draft.LeavesConstructor (d : Draft) : Prop :=
  d.inserted = [] ∧ ∀ r ∈ d.replacements, r.name ≠ MemberKind.constructor.label

/-- A constructor is pending: behind the fields, or in the place of the old one. -/
def Draft.WritesConstructor (d : Draft) (text : Text) : Prop :=
  d.inserted = "\n" ++ text ∨
    ∃ r ∈ d.replacements, r.name = MemberKind.constructor.label ∧ r.text = text

theorem label_injective {a b : MemberKind} (h : a.label = b.label) : a = b := by
  cases a <;> cases b <;> first | rfl | exact absurd h (by decide)

/-- Either a draft that was reviewed leaves the constructor, or it holds the one
    that is written for the class. -/
theorem Draft.IsReviewOf.constructor {s : Surroundings} {selector : Option MemberKind}
    {c : ClassDecl} {d : Draft} (left : d.IsReviewOf (draftFor s selector c)) :
    d.LeavesConstructor ∨ d.WritesConstructor (constructorText s c) := by
  obtain ⟨inserted, -, replacements⟩ := draftFor_pending s selector c
  rw [flatMap_insertedFor s c (nodup_kindsFor s.style c.header selector)] at inserted
  by_cases replaced : ∃ r ∈ d.replacements, r.name = MemberKind.constructor.label
  · obtain ⟨r, member, name⟩ := replaced
    have pending := left.2.subset member
    rw [replacements] at pending
    obtain ⟨kind, -, found⟩ := List.mem_filterMap.mp pending
    obtain ⟨-, label, text⟩ := replacementFor?_eq_some found
    have same : kind = .constructor := label_injective (label.symm.trans name)
    subst same
    exact .inr (.inr ⟨r, member, name, text⟩)
  · have same : d.inserted = (draftFor s selector c).inserted := by rw [left.1]
    rw [inserted] at same
    by_cases new : .constructor ∈ kindsFor s.style c.header selector ∧
      present? c .constructor = none
    · rw [if_pos new.1, insertedFor, if_pos ⟨rfl, new.2⟩] at same
      exact .inr (.inl same)
    · refine .inl ⟨?_, fun r member name => replaced ⟨r, member, name⟩⟩
      rw [same]
      split
      · rename_i written
        rw [insertedFor, if_neg fun h => new ⟨written, h.2⟩]
      · rfl

end Dart

end ValueClass
