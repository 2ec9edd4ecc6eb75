import ValueClass.Json.Basic
import Mathlib.Data.List.Nodup

/-! # Members by name

What is found under a name once some keys were given values, one after the other: the last
value that the name was given, or what was there before. A key is never entered twice.
-/

namespace ValueClass

variable {α : Type}

theorem lookup_member (key name : Text) (value : α) (rest : List (Text × α)) :
    ((key, value) :: rest).lookup name = if name = key then some value else rest.lookup name := by
  rw [List.lookup_cons]
  by_cases same : name = key
  · rw [if_pos same, beq_iff_eq.mpr same]
  · rw [if_neg same, beq_eq_false_iff_ne.mpr same]

theorem lookup_setMember (key name : Text) (value : α) (members : List (Text × α)) :
    (setMember key value members).lookup name = if name = key then some value
    else members.lookup name := by
  induction members with
  | nil => exact lookup_member key name value []
  | cons member rest ih =>
      obtain ⟨k, v⟩ := member
      rw [setMember]
      by_cases found : k = key
      · subst found
        rw [if_pos (beq_self_eq_true k), lookup_member, lookup_member]
        split <;> rfl
      · rw [if_neg (by simpa using found), lookup_member, lookup_member, ih]
        by_cases same : name = k
        · rw [if_pos same, if_pos same, if_neg (same ▸ found)]
        · rw [if_neg same, if_neg same]

theorem setMembers_cons (key : Text) (value : α) (entries base : List (Text × α)) :
    setMembers ((key, value) :: entries) base = setMembers entries (setMember key value base) := rfl

theorem lookup_setMembers (entries base : List (Text × α)) (name : Text) :
    (setMembers entries base).lookup name = (entries.reverse.lookup name).or
    (base.lookup name) := by
  induction entries generalizing base with
  | nil => rfl
  | cons entry rest ih =>
      obtain ⟨key, value⟩ := entry
      rw [setMembers_cons, ih, lookup_setMember, List.reverse_cons, List.lookup_append,
        Option.or_assoc, lookup_member]
      by_cases same : name = key
      · rw [if_pos same, if_pos same, Option.some_or]
      · rw [if_neg same, if_neg same, List.lookup_nil, Option.none_or]

theorem keys_setMember (key : Text) (value : α) (members : List (Text × α)) :
    (setMember key value members).map (·.1) =
      if key ∈ members.map (·.1) then members.map (·.1) else members.map (·.1) ++ [key] := by
  induction members with
  | nil => rfl
  | cons member rest ih =>
      obtain ⟨k, v⟩ := member
      rw [setMember]
      by_cases found : k = key
      · simp [found]
      · have other : key ≠ k := fun same => found same.symm
        rw [if_neg (by simpa using found), List.map_cons, ih, List.map_cons]
        by_cases listed : key ∈ rest.map (·.1)
        · rw [if_pos listed, if_pos (List.mem_cons_of_mem _ listed)]
        · rw [if_neg listed, if_neg (by simpa [other] using listed), List.cons_append]

theorem nodup_keys_setMember {members : List (Text × α)} (distinct : (members.map (·.1)).Nodup)
    (key : Text) (value : α) :
    ((setMember key value members).map (·.1)).Nodup := by
  rw [keys_setMember]
  split
  · exact distinct
  · rename_i fresh
    rw [← List.concat_eq_append]
    exact distinct.concat fresh

theorem nodup_keys_setMembers {base : List (Text × α)} (distinct : (base.map (·.1)).Nodup)
    (entries : List (Text × α)) :
    ((setMembers entries base).map (·.1)).Nodup := by
  induction entries generalizing base with
  | nil => exact distinct
  | cons entry rest ih => exact ih (nodup_keys_setMember distinct entry.1 entry.2)

theorem lookup_reverse_of_nodup {members : List (Text × α)} (distinct : (members.map (·.1)).Nodup)
    (name : Text) :
    members.reverse.lookup name = members.lookup name := by
  induction members with
  | nil => rfl
  | cons member rest ih =>
      obtain ⟨k, v⟩ := member
      obtain ⟨fresh, others⟩ := List.nodup_cons.mp distinct
      rw [List.reverse_cons, List.lookup_append, ih others, lookup_member, lookup_member]
      by_cases same : name = k
      · have absent : rest.lookup name = none := by
          rw [List.lookup_eq_none_iff]
          rintro ⟨key, value⟩ listed
          rw [bne_iff_ne]
          rintro rfl
          exact fresh (List.mem_map.mpr ⟨_, listed, same⟩)
        rw [if_pos same, if_pos same, absent, Option.none_or]
      · rw [if_neg same, if_neg same, List.lookup_nil, Option.or_none]

theorem lookup_filter_key (p : Text → Bool) (members : List (Text × α)) (name : Text) :
    (members.filter fun member => p member.1).lookup name = if p name then members.lookup name
    else none := by
  induction members with
  | nil => simp
  | cons member rest ih =>
      obtain ⟨k, v⟩ := member
      rw [List.filter_cons, lookup_member]
      by_cases same : name = k
      · subst same
        cases kept : p name with
        | true => rw [if_pos rfl, if_pos rfl, if_pos rfl, lookup_member, if_pos rfl]
        | false => rw [if_neg Bool.false_ne_true, if_neg Bool.false_ne_true, ih, kept,
            if_neg Bool.false_ne_true]
      · rw [if_neg same]
        split
        · rw [lookup_member, if_neg same, ih]
        · exact ih

end ValueClass
