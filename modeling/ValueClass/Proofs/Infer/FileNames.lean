import Mathlib.Data.List.Perm.Subperm
import ValueClass.Proofs.Infer.FileImports
import ValueClass.Proofs.Infer.Layouts
import ValueClass.Workspace.Path

/-! # The names of inferred files

No two files of a document have the same name. The name of a file is a plain stem with an ending,
so it is one component of a path; only where no class name can be made of the root name does a
single file take the root name as it is.
-/

namespace ValueClass

namespace Name

variable {taken : List Text}

theorem ofNat_injective : Function.Injective Text.ofNat := by
  intro k l same
  have digits : Nat.toDigits 10 k = Nat.toDigits 10 l := same
  rw [← Nat.ofDigitChars_ten_toDigits (n := k), digits, Nat.ofDigitChars_ten_toDigits]

theorem numbered_injective (plain : Text) : Function.Injective (numbered plain) :=
  fun _ _ same => ofNat_injective (List.append_cancel_left same)

theorem exists_numbered_notMem (plain : Text) (taken : List Text) :
    ∃ k ∈ (List.range (taken.length + 1)).map (· + 1), numbered plain k ∉ taken := by
  by_contra none
  have inside : ((List.range (taken.length + 1)).map (· + 1)).map (numbered plain) ⊆ taken := by
    intro stem listed
    obtain ⟨k, counted, rfl⟩ := List.mem_map.mp listed
    by_contra free
    exact none ⟨k, counted, free⟩
  have apart : (((List.range (taken.length + 1)).map (· + 1)).map (numbered plain)).Nodup := by
    apply List.Nodup.map (numbered_injective plain)
    apply List.Nodup.map Nat.succ_injective List.nodup_range
  have many := (List.subperm_of_subset apart inside).length_le
  simp only [List.length_map, List.length_range] at many
  omega

/-- How a stem is spelled when some stems are taken: the plain form where it is free, else with the
    least number that sets it apart from all of them. -/
inductive FirstFree (taken : List Text) (plain : Text) : Text → Prop
  | plain (free : plain ∉ taken) : FirstFree taken plain plain
  | numbered (k : Nat) (clash : plain ∈ taken) (positive : 1 ≤ k) (free : numbered plain k ∉ taken)
      (least : ∀ j, 1 ≤ j → j < k → numbered plain j ∈ taken) :
        FirstFree taken plain (numbered plain k)

theorem FirstFree.notMem {plain stem : Text} (h : FirstFree taken plain stem) : stem ∉ taken := by
  cases h with
  | plain free => exact free
  | numbered k clash positive free least => exact free

theorem FirstFree.ne_nil {plain stem : Text} (h : FirstFree taken plain stem) (some : plain ≠ []) :
    stem ≠ [] := by
  cases h with
  | plain free => exact some
  | numbered k clash positive free least => simp [Name.numbered]

theorem FirstFree.congr {other : List Text} {plain stem : Text} (h : FirstFree taken plain stem)
    (same : ∀ t, t ∈ taken ↔ t ∈ other) : FirstFree other plain stem := by
  cases h with
  | plain free => exact .plain fun known => free ((same _).mpr known)
  | numbered k clash positive free least =>
      exact .numbered k ((same _).mp clash) positive (fun known => free ((same _).mpr known))
        fun j low high => (same _).mp (least j low high)

/-- The stem of a class is the first free spelling of its plain form. -/
theorem firstFree_stem (className : Text) (taken : List Text) :
    FirstFree taken (plainStem className) (stem className taken) := by
  rw [stem]
  dsimp only
  split
  · rename_i clash
    have clash := List.contains_iff_mem.mp clash
    obtain ⟨k, counted, free⟩ := exists_numbered_notMem (plainStem className) taken
    rw [List.find?_map]
    cases found : (List.range (taken.length + 1)).find?
        ((fun k => !taken.contains (numbered (plainStem className) k)) ∘ (· + 1)) with
    | none =>
        obtain ⟨i, listed, rfl⟩ := List.mem_map.mp counted
        have taken := List.find?_eq_none.mp found i listed
        exact absurd free (by simpa using taken)
    | some i =>
        obtain ⟨free, -, least⟩ := List.find?_range_eq_some.mp found
        refine .numbered (i + 1) clash (Nat.le_add_left 1 i)
          (by simpa using free) fun j low high => ?_
        obtain ⟨j, rfl⟩ := Nat.exists_eq_add_of_le' low
        simpa using least j (Nat.lt_of_succ_lt_succ high)
  · rename_i free
    exact .plain (by simpa using free)

theorem stem_notMem (className : Text) (taken : List Text) : stem className taken ∉ taken :=
  (firstFree_stem className taken).notMem

theorem plainStem_eq (className : Text) :
    plainStem className = if snake className = [] then "generated".toList else snake className := by
  rw [plainStem]
  split
  · rename_i empty
    rw [if_pos empty]
  · rename_i some
    rw [if_neg some]

end Name

namespace PlannedFile

open Dart

theorem nodup_assignStems (taken : List Text) (classes : List ClassDecl) :
    ((assignStems taken classes).map (·.2)).Nodup ∧ ∀ assigned ∈ assignStems taken classes,
    assigned.2 ∉ taken := by
  induction classes generalizing taken with
  | nil => exact ⟨List.nodup_nil, fun _ member => absurd member List.not_mem_nil⟩
  | cons c rest ih =>
      obtain ⟨apart, free⟩ := ih (Name.stem c.name taken :: taken)
      rw [assignStems]
      constructor
      · refine List.nodup_cons.mpr ⟨fun again => ?_, apart⟩
        obtain ⟨assigned, member, same⟩ := List.mem_map.mp again
        exact free assigned member (same ▸ List.mem_cons_self)
      · intro assigned member
        rcases List.mem_cons.mp member with rfl | member
        · exact Name.stem_notMem c.name taken
        · exact fun known => free assigned member (List.mem_cons_of_mem _ known)

theorem firstFree_assignStems (taken : List Text) (classes : List ClassDecl) {i : Nat}
    {c : ClassDecl} {stem : Text} (assigned : (assignStems taken classes)[i]? = some (c, stem)) :
    Name.FirstFree (taken ++ ((assignStems taken classes).take i).map (·.2))
      (Name.plainStem c.name) stem := by
  induction classes generalizing taken i with
  | nil => cases assigned
  | cons first rest ih =>
      rw [assignStems] at assigned ⊢
      cases i with
      | zero =>
          cases assigned
          simpa using Name.firstFree_stem c.name taken
      | succ i =>
          refine (ih _ assigned).congr fun t => ?_
          simp only [List.take_succ_cons, List.map_cons, List.cons_append, List.mem_cons,
            List.mem_append]
          exact or_left_comm

/-- Every class gets a file of its own, in the same order, and no two files share a stem. A
    stem is the snake case of the name of the class; where a file before it has that stem,
    with the least number that sets it apart from all files before it. -/
theorem plan_stems (classes : List ClassDecl) :
    (plan classes).map (·.decl) = classes ∧
      ((plan classes).map (·.stem)).Nodup ∧
      ∀ (i : Nat) (file : PlannedFile), (plan classes)[i]? = some file →
        file.stem ≠ [] ∧
          Name.FirstFree (((plan classes).take i).map (·.stem))
            (if Name.snake file.decl.name = [] then "generated".toList
              else Name.snake file.decl.name) file.stem := by
  have stems : (plan classes).map (·.stem) = (assignStems [] classes).map (·.2) := by
    rw [plan, List.map_map]
    rfl
  refine ⟨map_decl_plan classes, stems ▸ (nodup_assignStems [] classes).1, ?_⟩
  intro i file planned
  have before : ((plan classes).take i).map (·.stem) =
      ((assignStems [] classes).take i).map (·.2) := by
    rw [List.map_take, stems, List.map_take]
  rw [plan, List.getElem?_map, Option.map_eq_some_iff] at planned
  obtain ⟨⟨c, stem⟩, assigned, rfl⟩ := planned
  have spelled := firstFree_assignStems [] classes assigned
  rw [Name.plainStem_eq, List.nil_append, ← before] at spelled
  refine ⟨spelled.ne_nil ?_, spelled⟩
  split
  · decide
  · assumption

/-- A class may be called like the numbered stem of another one, and then gets a number of its
    own. -/
theorem plan_stems_numbered :
    let named (name : Text) : ClassDecl := { header := { name := some name }, firstLine := 1 }
    let classes := ["UserProfile".toList, "userProfile", "UserProfile_1", "__"].map named
    let stems : List Text := ["user_profile", "user_profile_1", "user_profile_1_1", "generated"]
    (plan classes).map (·.stem) = stems ∧ stems.Nodup ∧
      ∃ file, (plan classes)[2]? = some file ∧ file.stem ≠ [] ∧
        Name.FirstFree (((plan classes).take 2).map (·.stem))
          (Name.snake "UserProfile_1") file.stem := by
  intro named classes stems
  have given : (plan classes).map (·.stem) = stems := by decide +kernel
  obtain ⟨-, apart, each⟩ := plan_stems classes
  obtain ⟨file, planned, name⟩ : ∃ file, (plan classes)[2]? = some file ∧
      file.decl.name = "UserProfile_1".toList := by
    decide +kernel
  obtain ⟨some, spelled⟩ := each 2 file planned
  rw [name, if_neg (by decide)] at spelled
  exact ⟨given, given ▸ apart, file, planned, some, spelled⟩

/-- The name of a file: a plain stem with the ending. -/
def IsFileName (name : Text) : Prop :=
  ∃ stem : Text, stem.IsPlain ∧ name = stem ++ ending

theorem IsFileName.length {name : Text} (named : IsFileName name) : 2 < name.length := by
  obtain ⟨stem, -, rfl⟩ := named
  have long : ending.length = 5 := rfl
  rw [List.length_append]
  omega

end PlannedFile

theorem Path.rootOf_of_notMem {t : Text} (noSlash : '/' ∉ t) : Path.rootOf t = [] := by
  have other : ∀ start : Text, t.startsWith ('/' :: start) = false := by
    intro start
    cases t with
    | nil => rfl
    | cons c rest =>
        have apart : '/' ≠ c := fun same => noSlash (same ▸ List.mem_cons_self)
        simp [Text.startsWith, List.isPrefixOf_cons_cons, apart]
  rw [Path.rootOf, if_neg (by simp [other ['/']]), if_neg (by simp [other []])]

/-- The name of a file is one component of a path. -/
theorem Path.ofText_fileName {name : Text} (named : PlannedFile.IsFileName name) :
    Path.ofText name = { parts := [name] } := by
  have long := named.length
  obtain ⟨stem, plain, rfl⟩ := named
  have noSlash : '/' ∉ stem ++ PlannedFile.ending := by
    rw [List.mem_append, not_or]
    exact ⟨plain.notMem (by decide), by decide⟩
  have whole : (stem ++ PlannedFile.ending).runs (· != '/') = [stem ++ PlannedFile.ending] := by
    rw [Text.runs, Text.splitWhere_of_forall]
    · simp [PlannedFile.ending]
    · intro c member
      have apart : c ≠ '/' := by
        rintro rfl
        exact noSlash member
      simpa using apart
  rw [Path.ofText, Path.rootOf_of_notMem noSlash, whole, List.filter_cons_of_pos, List.filter_nil]
  apply bne_iff_ne.mpr
  intro dot
  rw [dot] at long
  exact absurd long (by decide)

namespace JsonRequest

open Dart

variable {request : JsonRequest} {before after : Interview} {found : List ClassDecl}
  {g : GeneratedFiles}

theorem head_inferred (accepted : request.inferred = .ok found) :
    ∃ first rest, found = first :: rest ∧ first.name = Name.className request.rootName := by
  obtain ⟨indent, members, -, rfl⟩ := Infer.classes_eq_ok_iff.mp accepted
  have document : ∃ fields nested,
      ObjectSketch.ofDocument (Infer.dateRule request.style request.dates)
        request.rootName members =
        { named := request.rootName, members := fields } :: nested := by
    rw [ObjectSketch.ofDocument, ObjectSketch.ofValue]
    exact ⟨_, _, rfl⟩
  obtain ⟨fields, nested, document⟩ := document
  rw [document, List.map_cons, Infer.dropRepeats, if_neg (by simp)]
  exact ⟨_, _, rfl, rfl⟩

theorem isPlain_inferred (accepted : request.inferred = .ok found) :
    ∀ c ∈ found, c.name.IsPlain := by
  obtain ⟨indent, root, -, each, -⟩ := Infer.visited_of_classes accepted
  intro c kept
  obtain ⟨named, members, -, rfl⟩ := each c kept
  exact Name.isPlain_className named

theorem map_name_markFirst (files : List GeneratedFile) :
    (Infer.markFirst files).map (·.name) = files.map (·.name) := by
  cases files <;> rfl

theorem map_name_separateFiles (s : Surroundings) (packageName : Option Text)
    (classes : List ClassDecl) :
    (Infer.separateFiles s packageName classes).map (·.name) =
      (PlannedFile.assignStems [] classes).map fun assigned =>
        assigned.2 ++ PlannedFile.ending := by
  rw [Infer.separateFiles, PlannedFile.plan, List.map_map, List.map_map]
  rfl

/-- The files of a document have different names, each one component of a path. Only a single file
may be named otherwise, when no class name can be made of the root name. -/
theorem names_generated (returned : request.generate.Returns before g after) :
    (g.files.map (·.name)).Nodup ∧
      ((∀ file ∈ g.files, PlannedFile.IsFileName file.name) ∨
        Name.className request.rootName = [] ∧ g.files.length = 1) := by
  obtain ⟨found, indent, separate, accepted, -, -, -, rfl⟩ := generate_returns.mp returned
  have plain := isPlain_inferred accepted
  cases separate with
  | true =>
      have names : ((request.written found indent true).files.map (·.name)) =
          (PlannedFile.assignStems [] found).map fun assigned => assigned.2 ++ PlannedFile.ending :=
        (map_name_markFirst _).trans (map_name_separateFiles _ _ found)
      constructor
      · have apart := (PlannedFile.nodup_assignStems [] found).1.map
            (List.append_left_injective PlannedFile.ending)
        rw [List.map_map] at apart
        rw [names]
        exact apart
      · left
        intro file member
        have listed := List.mem_map_of_mem (f := fun f : GeneratedFile => f.name) member
        rw [names] at listed
        obtain ⟨assigned, given, named⟩ := List.mem_map.mp listed
        exact ⟨assigned.2, PlannedFile.isPlain_of_mem_assignStems plain given, named.symm⟩
  | false =>
      obtain ⟨first, rest, rfl, named⟩ := head_inferred accepted
      refine ⟨List.nodup_singleton _, ?_⟩
      by_cases unnamed : Name.className request.rootName = []
      · exact .inr ⟨unnamed, rfl⟩
      · left
        intro file member
        rw [List.mem_singleton.mp member]
        refine ⟨Name.stem first.name [], Name.isPlain_stem (plain first List.mem_cons_self) [], ?_⟩
        have some : (first.name).isEmpty = false := by simpa [named] using unnamed
        simp [Infer.singleFile, some]

end JsonRequest

end ValueClass
