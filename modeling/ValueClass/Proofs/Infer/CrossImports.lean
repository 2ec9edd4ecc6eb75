import ValueClass.Proofs.Infer.FileImports
import ValueClass.Proofs.Infer.Visited

/-! # Imports between files

The file of a class imports the files of other classes that its fields mean without doubt.
The lines stand in the order in which the fields ask for them first. A line is an import
statement unless the name of the file itself starts like one.
-/

namespace ValueClass.PlannedFile

open Dart

/-- What some items ask for, each thing once, in the order in which they are first asked for. -/
structure InOrderOfUse {α β : Type} (uses : α → β → Prop) (items : List α) (out : List β) :
    Prop where
  nodup : out.Nodup
  mem_iff : ∀ b, b ∈ out ↔ ∃ item ∈ items, uses item b
  ordered : out.Pairwise fun a b =>
    ∃ k, (∃ item ∈ items.take k, uses item a) ∧ ∀ item ∈ items.take k, ¬ uses item b

namespace InOrderOfUse

variable {α β : Type} {uses other : α → β → Prop} {items : List α} {out : List β}

theorem congr (h : InOrderOfUse uses items out)
    (same : ∀ item ∈ items, ∀ b, uses item b ↔ other item b) :
    InOrderOfUse other items out where
  nodup := h.nodup
  mem_iff b := (h.mem_iff b).trans
    (exists_congr fun item => and_congr_right fun listed => same item listed b)
  ordered := by
    refine h.ordered.imp fun {a b} => ?_
    rintro ⟨k, ⟨item, early, first⟩, unused⟩
    have listed : ∀ item ∈ items.take k, item ∈ items := fun item => List.mem_of_mem_take
    exact ⟨k, ⟨item, early, (same item (listed item early) a).mp first⟩,
      fun item early second => unused item early ((same item (listed item early) b).mpr second)⟩

theorem ordered_concat (h : InOrderOfUse uses items out) (last : α) :
    out.Pairwise fun a b => ∃ k, (∃ item ∈ (items ++ [last]).take k, uses item a) ∧
      ∀ item ∈ (items ++ [last]).take k, ¬ uses item b := by
  refine h.ordered.imp fun {a b} => ?_
  rintro ⟨k, first, unused⟩
  have early : (items ++ [last]).take (min k items.length) = items.take k := by
    rw [List.take_append_of_le_length (Nat.min_le_right _ _), ← List.take_eq_take_min]
  exact ⟨min k items.length, by rw [early]; exact first, by rw [early]; exact unused⟩

end InOrderOfUse

/-- Texts that are added where they are new stand in the order of their first use. -/
theorem inOrderOfUse_foldl_addNew {α : Type} (asked? : α → Option Text) (items : List α) :
    InOrderOfUse (fun item t => asked? item = some t) items
      ((items.filterMap asked?).foldl addNew []) := by
  induction items using List.reverseRecOn with
  | nil => exact ⟨List.nodup_nil, by simp, List.Pairwise.nil⟩
  | append_singleton items last ih =>
      rw [List.filterMap_append, List.foldl_append]
      cases asked : asked? last with
      | none =>
          rw [List.filterMap_cons_none asked, List.filterMap_nil, List.foldl_nil]
          exact ⟨ih.nodup, by simpa [asked] using ih.mem_iff, ih.ordered_concat last⟩
      | some t =>
          rw [List.filterMap_cons_some asked, List.filterMap_nil, List.foldl_cons, List.foldl_nil,
            addNew]
          split
          · rename_i known
            have known := (ih.mem_iff t).mp (List.contains_iff_mem.mp known)
            refine ⟨ih.nodup, fun b => ?_, ih.ordered_concat last⟩
            rw [ih.mem_iff]
            constructor
            · rintro ⟨item, listed, uses⟩
              exact ⟨item, List.mem_append_left _ listed, uses⟩
            · rintro ⟨item, listed, uses⟩
              rcases List.mem_append.mp listed with listed | listed
              · exact ⟨item, listed, uses⟩
              · rw [List.mem_singleton.mp listed, asked] at uses
                cases uses
                exact known
          · rename_i new
            have new : t ∉ (items.filterMap asked?).foldl addNew [] := by simpa using new
            refine ⟨List.nodup_append.mpr ⟨ih.nodup, by simp, ?_⟩, fun b => ?_,
              List.pairwise_append.mpr ⟨ih.ordered_concat last, List.pairwise_singleton _ _, ?_⟩⟩
            · rintro a inside b added rfl
              exact new (List.mem_singleton.mp added ▸ inside)
            · simp [ih.mem_iff, or_and_right, exists_or, asked, eq_comm]
            · intro a inside b added
              obtain rfl := List.mem_singleton.mp added
              -- The items before the last one ask for everything but the new text.
              refine ⟨items.length, ?_, ?_⟩
              · rw [List.take_left]
                exact (ih.mem_iff a).mp inside
              · rw [List.take_left]
                exact fun item listed uses => new ((ih.mem_iff b).mpr ⟨item, listed, uses⟩)

/-! ## The class that a field means -/

/-- A field of the class of one file means the class of another: its type has that class under
    all lists and sets, and no other class is called so. -/
structure Means (classes : List ClassDecl) (file : PlannedFile) (f : Field) (other : PlannedFile) :
    Prop where
  planned : other ∈ plan classes
  base : f.type.baseText = other.decl.name
  apart : other.decl.name ≠ file.decl.name
  only : (classes.map (·.name)).count other.decl.name = 1

/-- The statement that imports a file from the same directory. -/
def statement (file : PlannedFile) : Text :=
  "import '" ++ file.fileName ++ "';"

section Means

variable {classes : List ClassDecl} {file other : PlannedFile} {name stem : Text}

theorem mem_assignStems_iff {c : ClassDecl} :
    (c, stem) ∈ assignStems [] classes ↔ ∃ other ∈ plan classes, other.decl = c ∧
    other.stem = stem := by
  rw [plan]
  simp

theorem count_name_eq_length (classes : List ClassDecl) (name : Text) :
    (classes.map (·.name)).count name =
    ((assignStems [] classes).filter fun (c, _) => c.name == name).length := by
  conv_lhs => rw [← map_fst_assignStems [] classes]
  rw [List.map_map, List.count, List.countP_map, List.countP_eq_length_filter]
  rfl

/-- A name has a stem where it is that of one class only. -/
theorem stemOf?_eq_some_iff :
    stemOf? (assignStems [] classes) name = some stem ↔
      ∃ other ∈ plan classes, other.stem = stem ∧ other.decl.name = name ∧
        (classes.map (·.name)).count name = 1 := by
  have listed : ∀ c, (c, stem) ∈ (assignStems [] classes).filter (fun (c, _) => c.name == name) ↔
      ∃ other ∈ plan classes, other.decl = c ∧ other.stem = stem ∧ c.name = name := by
    intro c
    rw [List.mem_filter, mem_assignStems_iff, beq_iff_eq]
    constructor
    · rintro ⟨⟨other, planned, decl, stem⟩, named⟩
      exact ⟨other, planned, decl, stem, named⟩
    · rintro ⟨other, planned, decl, stem, named⟩
      exact ⟨⟨other, planned, decl, stem⟩, named⟩
  rw [stemOf?, count_name_eq_length]
  constructor
  · intro found
    split at found
    · rename_i c _ single
      cases found
      obtain ⟨other, planned, rfl, stem, named⟩ :=
        (listed c).mp (by rw [single]; exact List.mem_singleton_self _)
      exact ⟨other, planned, stem, named, by rw [single]; rfl⟩
    · cases found
  · rintro ⟨other, planned, stem, named, single⟩
    obtain ⟨⟨c, s⟩, single⟩ := List.length_eq_one_iff.mp single
    have inside := (listed other.decl).mpr ⟨other, planned, rfl, stem, named⟩
    rw [single] at inside ⊢
    obtain ⟨-, rfl⟩ := Prod.mk.inj (List.mem_singleton.mp inside)
    rfl

/-- The line that a field asks for, if it means the class of another file. -/
def crossing? (classes : List ClassDecl) (c : ClassDecl) (f : Field) : Option Text :=
  (if f.type.baseText == c.name then none else stemOf? (assignStems [] classes) f.type.baseText).map
    fun stem => importLine (stem ++ ending)

theorem crossing?_eq_some_iff {f : Field} {line : Text} :
    crossing? classes file.decl f = some line ↔
      ∃ other, Means classes file f other ∧ line = importLine other.fileName := by
  rw [crossing?, Option.map_eq_some_iff]
  constructor
  · rintro ⟨stem, found, rfl⟩
    split at found
    · cases found
    · rename_i apart
      obtain ⟨other, planned, rfl, named, only⟩ := stemOf?_eq_some_iff.mp found
      refine ⟨other, ⟨planned, named.symm, ?_, named ▸ only⟩, rfl⟩
      rw [named]
      simpa using apart
  · rintro ⟨other, means, rfl⟩
    refine ⟨other.stem, ?_, rfl⟩
    rw [if_neg (by rw [means.base]; simpa using means.apart)]
    exact stemOf?_eq_some_iff.mpr ⟨other, means.planned, rfl, means.base.symm,
      means.base ▸ means.only⟩

theorem imports_eq (planned : file ∈ plan classes) :
    file.imports = (file.decl.fields.filterMap (crossing? classes file.decl)).foldl addNew [] := by
  obtain ⟨⟨decl, stem⟩, -, rfl⟩ := List.mem_map.mp planned
  dsimp only
  rw [importsFor, List.map_filterMap]
  rfl

theorem importLine_fileName (plain : other.fileName.startsWith "import" = false) :
    importLine other.fileName = other.statement := by
  rw [importLine, plain]
  rfl

theorem statement_injective (same : file.statement = other.statement) :
    file.fileName = other.fileName := by
  have inner := List.append_cancel_right (show ("import '" ++ file.fileName : Text) ++ "';".toList =
    ("import '" ++ other.fileName : Text) ++ "';".toList from same)
  exact List.append_cancel_left inner

theorem getLast?_fileName (file : PlannedFile) : file.fileName.getLast? = some 't' := by
  have last : ending = ".dar".toList ++ ['t'] := by decide
  rw [fileName, last, ← List.append_assoc, List.getLast?_concat]

theorem getLast?_statement (file : PlannedFile) : file.statement.getLast? = some ';' := by
  have last : "';".toList = ['\''] ++ [';'] := by decide
  show (("import '" ++ file.fileName : Text) ++ "';".toList).getLast? = some ';'
  rw [last, ← List.append_assoc, List.getLast?_concat]

theorem fileName_ne_statement (file other : PlannedFile) : file.fileName ≠ other.statement := by
  intro same
  have last := congrArg List.getLast? same
  rw [getLast?_fileName, getLast?_statement] at last
  revert last
  decide

/-- A file imports the files of the classes that its fields mean, each once and in the order
    of their first use, and nothing else. The lines are import statements exactly when no name
    of these files starts with `import`. -/
theorem plan_imports_iff (planned : file ∈ plan classes) :
    InOrderOfUse (fun f line => ∃ other, Means classes file f other ∧
      line = importLine other.fileName)
        file.decl.fields file.imports ∧
      (InOrderOfUse (fun f line => ∃ other, Means classes file f other ∧ line = other.statement)
          file.decl.fields file.imports ↔
        ∀ f ∈ file.decl.fields, ∀ other, Means classes file f other →
          other.fileName.startsWith "import" = false) := by
  have written : InOrderOfUse (fun f line => ∃ other, Means classes file f other ∧
    line = importLine other.fileName)
      file.decl.fields file.imports := by
    rw [imports_eq planned]
    exact (inOrderOfUse_foldl_addNew _ _).congr fun f _ line => crossing?_eq_some_iff
  refine ⟨written, ?_, ?_⟩
  · intro wanted f listed other means
    rw [Bool.eq_false_iff]
    intro clash
    obtain ⟨g, -, third, -, line⟩ :=
      (written.mem_iff _).mp ((wanted.mem_iff _).mpr ⟨f, listed, other, means, rfl⟩)
    cases plain : third.fileName.startsWith "import" with
    | true =>
        rw [importLine, if_pos plain] at line
        exact fileName_ne_statement third other line.symm
    | false =>
        rw [importLine_fileName plain] at line
        rw [← statement_injective line, clash] at plain
        cases plain
  · intro plain
    refine written.congr fun f listed line => exists_congr fun other =>
      and_congr_right fun means => ?_
    rw [importLine_fileName (plain f listed other means)]

/-- Of two files that are imported by a third, the one that is called `import_item.dart` is
    not imported by a statement. -/
theorem plan_imports_iff_item :
    let item : Json := .obj [("a", .int 1)]
    let root : List (Text × Json) := [("owner", .obj [("b", .int 1)]), ("import_item", item)]
    let classes := [Infer.classFor {} .calendar "  " "Root" root,
      Infer.classFor {} .calendar "  " "owner" [("b", .int 1)],
      Infer.classFor {} .calendar "  " "import_item" [("a", .int 1)]]
    ∃ file ∈ plan classes,
      file.imports = ["import 'owner.dart';".toList, "import_item.dart".toList] ∧
      ¬ InOrderOfUse (fun f line => ∃ other, Means classes file f other ∧ line = other.statement)
        file.decl.fields file.imports := by
  intro item root classes
  have files : (plan classes)[0]?.map (·.imports) =
      some ["import 'owner.dart';".toList, "import_item.dart".toList] := by
    decide +kernel
  obtain ⟨file, first, imports⟩ := Option.map_eq_some_iff.mp files
  have planned := List.mem_of_getElem? first
  obtain ⟨written, iff⟩ := plan_imports_iff planned
  refine ⟨file, planned, imports, fun wanted => ?_⟩
  obtain ⟨f, listed, other, means, line⟩ :=
    (written.mem_iff "import_item.dart".toList).mp (by rw [imports]; decide)
  have plain := iff.mp wanted f listed other means
  rw [importLine_fileName plain] at line
  have last := congrArg List.getLast? line
  rw [getLast?_statement] at last
  revert last
  decide

end Means

end ValueClass.PlannedFile
