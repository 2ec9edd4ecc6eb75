import Mathlib.Logic.Function.Iterate
import ValueClass.Proofs.Infer.Inferred

/-! # Visited objects

Which objects of a document get a class, and the text that each is named after. An
array is looked at through its first item only, and every array on the way takes the
singular of the name.
-/

namespace ValueClass

/-- A value leads to an object: it is the object, or the first item of the array that it
    is leads there. So many arrays stand above the object. -/
inductive Json.LeadsTo : Json → Nat → List (Text × Json) → Prop where
  | object {members : List (Text × Json)} : LeadsTo (.obj members) 0 members
  | first {item : Json} {rest : List Json} {levels : Nat} {members : List (Text × Json)} :
      LeadsTo item levels members → LeadsTo (.arr (item :: rest)) (levels + 1) members

/-- The objects that are visited from a value under a name, each with the text it is named
    after. -/
inductive Json.Visits : Text → Json → Text → List (Text × Json) → Prop where
  | here {named : Text} {value : Json} {levels : Nat} {members : List (Text × Json)} :
      value.LeadsTo levels members → Visits named value (Name.singular^[levels] named) members
  | through {named key name : Text} {value inner : Json} {levels : Nat}
      {between members : List (Text × Json)} :
      value.LeadsTo levels between → (key, inner) ∈ between → Visits key inner name members →
        Visits named value name members

namespace Json

variable {value item : Json} {levels : Nat} {members inner : List (Text × Json)}
  {named name key : Text}

theorem LeadsTo.sizeOf_lt (leads : value.LeadsTo levels members) (listed : (key, item) ∈ members) :
    sizeOf item < sizeOf value := by
  induction leads with
  | object =>
      have := List.sizeOf_lt_of_mem listed
      simp only [Prod.mk.sizeOf_spec, obj.sizeOf_spec] at this ⊢
      omega
  | first _ ih =>
      have := ih listed
      simp only [arr.sizeOf_spec, List.cons.sizeOf_spec]
      omega

theorem Visits.member (visited : Visits named value name members) (member : (key, item) ∈ members)
    (leads : item.LeadsTo levels inner) :
    Visits named value (Name.singular^[levels] key) inner := by
  induction visited with
  | here found => exact .through found member (.here leads)
  | through found listed _ ih => exact .through found listed (ih member)

end Json

namespace ObjectSketch

variable {dates : DateRule}

def ofObject (dates : DateRule) (named : Text) (members : List (Text × Json)) : ObjectSketch :=
  { named, members := (ofMembers dates members).1 }

theorem types_ofMembers (dates : DateRule) (members : List (Text × Json)) :
    (ofMembers dates members).1 = members.map fun (key, value) =>
    (key, (ofValue dates key value).1) := by
  induction members with
  | nil => rfl
  | cons member rest ih =>
      rw [List.map_cons, ← ih]
      rfl

theorem mem_nested_ofMembers {members : List (Text × Json)} {sketch : ObjectSketch} :
    sketch ∈ (ofMembers dates members).2 ↔
      ∃ key value, (key, value) ∈ members ∧ sketch ∈ (ofValue dates key value).2 := by
  induction members with
  | nil => simp [ofMembers]
  | cons member rest ih =>
      rw [ofMembers, List.mem_append, ih]
      constructor
      · rintro (inside | ⟨key, value, listed, inside⟩)
        · exact ⟨member.1, member.2, List.mem_cons_self, inside⟩
        · exact ⟨key, value, List.mem_cons_of_mem _ listed, inside⟩
      · rintro ⟨key, value, listed, inside⟩
        rcases List.mem_cons.mp listed with rfl | listed
        · exact .inl inside
        · exact .inr ⟨key, value, listed, inside⟩

theorem ofValue_of_leadsTo {value : Json} {levels : Nat} {members : List (Text × Json)}
    (leads : value.LeadsTo levels members) (named : Text) :
    ofValue dates named value =
      (TypeSketch.list^[levels] (.object (Name.singular^[levels] named)),
        ofObject dates (Name.singular^[levels] named) members :: (ofMembers dates members).2) := by
  induction leads generalizing named with
  | object => rw [ofValue]; rfl
  | @first item rest levels members leads ih =>
      rw [ofValue, ih]
      simp only [Function.iterate_succ_apply', Prod.mk.injEq]
      exact ⟨by rw [← Function.iterate_succ_apply, Function.iterate_succ_apply'],
        by rw [← Function.iterate_succ_apply, Function.iterate_succ_apply']⟩

theorem leadsTo_or_eq_nil (dates : DateRule) (named : Text) :
    ∀ value : Json, (∃ levels members, value.LeadsTo levels members) ∨
      (ofValue dates named value).2 = []
  | .obj members => .inl ⟨0, members, .object⟩
  | .arr [] => .inr rfl
  | .arr (item :: _) => by
    rcases leadsTo_or_eq_nil dates (Name.singular named) item with ⟨levels, members, leads⟩ | none
    · exact .inl ⟨levels + 1, members, leads.first⟩
    · refine .inr ?_
      rw [ofValue]
      exact none
  | .null | .bool _ | .int _ | .float _ | .str _ => .inr (by rw [ofValue] <;> simp)

/-- The sketches of a value are those of the objects that are visited. -/
theorem mem_sketches_iff {named : Text} {value : Json} {sketch : ObjectSketch} :
    sketch ∈ (ofValue dates named value).2 ↔
      ∃ name members, Json.Visits named value name members ∧
        sketch = ofObject dates name members := by
  constructor
  · intro inside
    rcases leadsTo_or_eq_nil dates named value with ⟨levels, members, leads⟩ | none
    · rw [ofValue_of_leadsTo leads, List.mem_cons, mem_nested_ofMembers] at inside
      rcases inside with rfl | ⟨key, inner, listed, inside⟩
      · exact ⟨_, members, .here leads, rfl⟩
      · have smaller : sizeOf inner < sizeOf value := leads.sizeOf_lt listed
        obtain ⟨name, members, visits, rfl⟩ := mem_sketches_iff.mp inside
        exact ⟨name, members, .through leads listed visits, rfl⟩
    · simp [none] at inside
  · rintro ⟨name, members, visits, rfl⟩
    induction visits with
    | here leads =>
        rw [ofValue_of_leadsTo leads]
        exact List.mem_cons_self
    | through leads listed _ ih =>
        rw [ofValue_of_leadsTo leads]
        exact List.mem_cons_of_mem _ (mem_nested_ofMembers.mpr ⟨_, _, listed, ih⟩)
termination_by sizeOf value

end ObjectSketch

namespace Infer

open Dart

variable {style : Style} {test : DateTest} {engine : TemplateEngine}
  {source : JsonSource} {rootName : Text} {found : List ClassDecl}

/-- The class of an object under a name, as it is inferred under a style. -/
def classFor (style : Style) (test : DateTest) (indent named : Text)
    (members : List (Text × Json)) :
    ClassDecl :=
  inferredClass indent (.ofObject (dateRule style test) named members)

/-- The classes of an accepted document are those of the objects that are visited, the text
    of each of which is there. -/
theorem visited_of_classes
    (accepted : ((classes style test engine source rootName).run freshNamer).1 = .ok found) :
    ∃ indent root, Accepted style source indent root ∧
      (∀ c ∈ found, ∃ named members, Json.Visits rootName (.obj root) named members ∧
        c = classFor style test indent named members) ∧
      ∀ named members, Json.Visits rootName (.obj root) named members →
        ∃ d ∈ found, d.content = (classFor style test indent named members).content ∧
          d.name = Name.className named := by
  obtain ⟨indent, root, read, rfl⟩ := classes_eq_ok_iff.mp accepted
  refine ⟨indent, root, read, ?_, ?_⟩
  · intro c kept
    obtain ⟨sketch, listed, rfl⟩ := List.mem_map.mp (mem_of_mem_dropRepeats kept)
    obtain ⟨named, members, visits, rfl⟩ := ObjectSketch.mem_sketches_iff.mp listed
    exact ⟨named, members, visits, rfl⟩
  · intro named members visits
    have listed : ObjectSketch.ofObject (dateRule style test) named members ∈
        ObjectSketch.ofDocument (dateRule style test) rootName root :=
      ObjectSketch.mem_sketches_iff.mpr ⟨named, members, visits, rfl⟩
    obtain ⟨d, kept, same⟩ := exists_mem_dropRepeats
      (List.mem_map_of_mem (f := inferredClass indent) listed) List.not_mem_nil
    obtain ⟨sketch, -, rfl⟩ := List.mem_map.mp (mem_of_mem_dropRepeats kept)
    have name := className_eq_of_content same
    exact ⟨_, kept, same, name⟩

end Infer

end ValueClass
