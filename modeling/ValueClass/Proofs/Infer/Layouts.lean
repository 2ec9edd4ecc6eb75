import ValueClass.Proofs.Generate.Run
import ValueClass.Proofs.Infer.Rendered

/-! # Layouts of inferred files

The classes of a document go to one file or to a file each. Both layouts hold the same
class texts, and differ in the imports around them: a file of its own imports the files of
other classes, and the libraries of its own class only.
-/

namespace ValueClass

open Dart

namespace Infer

variable {s : Surroundings} {packageName : Option Text} {given : List Text}
  {classes : List ClassDecl}

/-! ## The text of a file -/

theorem fileContent_eq (s : Surroundings) (packageName : Option Text) (given : List Text)
    (classes : List ClassDecl) :
    fileContent s (given.foldl Imports.push (Imports.ofText [] packageName)) classes =
      Text.tidy (Text.join "\n\n" (importBlock (importsFor s packageName given classes) ++
        classes.map (classText s))) := by
  rw [importsFor, fileContent, writeClasses_eq_map]
  show Text.tidy (Text.join "\n\n"
    (importBlock _ ++ (classes.map (writtenDraft s none)).map Draft.render)) = _
  rw [List.map_map]
  rfl

def heading (block : List Text) : Text :=
  block.flatMap fun text => text ++ ['\n', '\n']

theorem tidy_composed {imports : Imports} {texts : List Text}
    (lines : ∀ value ∈ imports.values, IsImport value)
    (framed : ∀ text ∈ texts, Text.Framed (Text.trimmedLines text)) (some : texts ≠ []) :
    Text.tidy (Text.join "\n\n" (importBlock imports ++ texts)) =
      heading (importBlock imports) ++ Text.join ['\n'] (texts.map Text.tidy) := by
  by_cases none : imports.hasImports
  · have filled : imports.values ≠ [] := by simpa [Imports.hasImports] using none
    obtain ⟨whole, tidied⟩ := Imports.tidy_formatted lines filled
    have parts : ∀ part ∈ imports.formatted :: texts, Text.Framed (Text.trimmedLines part) := by
      intro part member
      rcases List.mem_cons.mp member with rfl | member
      · exact whole
      · exact framed part member
    obtain ⟨first, rest, rfl⟩ := List.exists_cons_of_ne_nil some
    rw [importBlock, if_pos none, List.singleton_append, Text.tidy_join parts (by simp),
      List.map_cons, tidied, List.map_cons, Text.join]
    simp [heading]
  · rw [importBlock, if_neg none, List.nil_append, Text.tidy_join framed some]
    rfl

theorem map_content_markFirst (files : List GeneratedFile) :
    (markFirst files).map (·.content) = files.map (·.content) := by
  cases files <;> rfl

/-! ## Agreement -/

/-- Two layouts with the same class texts, below one import block and below one for each
    class. The import lines of the two agree, up to those that cross from file to file. -/
structure LayoutsAgree (together apart : List GeneratedFile) (block : List Text)
    (blocks : List (List Text)) (texts crossed : List Text) : Prop where
  /-- There is one file with all texts. -/
  single : together.map (·.content) = [Text.tidy (Text.join "\n\n" (block ++ texts))]
  /-- There is a file for each text. -/
  separate : apart.map (·.content) =
    List.zipWith (fun block text => Text.tidy (Text.join "\n\n" (block ++ [text]))) blocks texts
  /-- Every text has its block. -/
  sizes : blocks.length = texts.length
  /-- A formatted text neither begins nor ends with a blank line. -/
  framed : ∀ text ∈ texts, ∃ ls, Text.Framed ls ∧ Text.tidy text = Text.unlines ls ++ ['\n']
  /-- One blank line stands between two formatted texts of the one file. -/
  singlePart : Text.tidy (Text.join "\n\n" (block ++ texts)) =
    heading block ++ Text.join ['\n'] (texts.map Text.tidy)
  /-- The formatted texts are those of the files for each. -/
  separatePart : ∀ block ∈ blocks, ∀ text ∈ texts,
    Text.tidy (Text.join "\n\n" (block ++ [text])) = heading block ++ Text.tidy text
  /-- The one file imports what the others import, but none of them. -/
  imports : ∀ line, line ∈ importLines block ↔ (∃ block ∈ blocks, line ∈ importLines block) ∧
    line ∉ crossed

section Agree

variable {found : List ClassDecl}

theorem mem_importLines_single {line : Text} :
    line ∈ importLines (importBlock (importsFor s packageName [] found)) ↔
      line ∈ libraryLines (neededBy s none found) := by
  have nothing : ∀ line ∈ ([] : List Text), PlannedFile.IsFileImport line := by simp
  rw [mem_importLines_iff fun value member => isImport_of_mem_values nothing member,
    mem_values_importsFor nothing]
  simp

variable (plain : ∀ c ∈ found, c.name.IsPlain)

include plain

theorem mem_importLines_planned {file : PlannedFile} (planned : file ∈ PlannedFile.plan found)
    {line : Text} :
    line ∈ importLines (importBlock (importsFor s packageName file.imports [file.decl])) ↔
      line ∈ file.imports ∨ line ∈ libraryLines (neededBy s none [file.decl]) := by
  have files : ∀ line ∈ file.imports, PlannedFile.IsFileImport line :=
    fun line member => PlannedFile.isFileImport_of_mem_plan plain planned member
  rw [mem_importLines_iff fun value member => isImport_of_mem_values files member,
    mem_values_importsFor files]

/-- The libraries of all classes are those of each, and no file is a library. -/
theorem importLines_agree (line : Text) :
    line ∈ importLines (importBlock (importsFor s packageName [] found)) ↔
      (∃ block ∈ (PlannedFile.plan found).map fun file =>
          importBlock (importsFor s packageName file.imports [file.decl]),
            line ∈ importLines block) ∧
        line ∉ (PlannedFile.plan found).flatMap (·.imports) := by
  rw [mem_importLines_single, mem_libraryLines_neededBy]
  constructor
  · rintro ⟨c, listed, library⟩
    rw [← PlannedFile.map_decl_plan found] at listed
    obtain ⟨file, planned, rfl⟩ := List.mem_map.mp listed
    refine ⟨⟨_, List.mem_map_of_mem planned,
      (mem_importLines_planned plain planned).mpr (.inr library)⟩, ?_⟩
    intro crossed
    obtain ⟨other, planned, crossing⟩ := List.mem_flatMap.mp crossed
    obtain ⟨need, asked, rfl⟩ := mem_libraryLines.mp library
    have file := PlannedFile.isFileImport_of_mem_plan plain planned crossing
    exact file.notMem (by decide) (colon_mem_library (neededBy_subset s none _ asked))
  · rintro ⟨⟨_, listed, member⟩, inside⟩
    obtain ⟨file, planned, rfl⟩ := List.mem_map.mp listed
    rcases (mem_importLines_planned plain planned).mp member with crossing | library
    · exact absurd (List.mem_flatMap.mpr ⟨file, planned, crossing⟩) inside
    · refine ⟨file.decl, ?_, library⟩
      rw [← PlannedFile.map_decl_plan found]
      exact List.mem_map_of_mem planned

/-- The layouts of classes whose texts neither begin nor end with a blank line. -/
theorem layoutsAgree_of_framed (packageName : Option Text) (rootName : Text) (some : found ≠ [])
    (framed : ∀ c ∈ found, Text.Framed (Text.trimmedLines (classText s c))) :
    LayoutsAgree (markFirst [singleFile s packageName rootName found])
      (markFirst (separateFiles s packageName found))
      (importBlock (importsFor s packageName [] found))
      ((PlannedFile.plan found).map fun file => importBlock
        (importsFor s packageName file.imports [file.decl]))
      (found.map (classText s)) ((PlannedFile.plan found).flatMap (·.imports)) where
  single := congrArg (fun content => [content]) (fileContent_eq s packageName [] found)
  separate := by
    have texts : found.map (classText s) = (PlannedFile.plan found).map fun file =>
        classText s file.decl := by
      conv_lhs => rw [← PlannedFile.map_decl_plan found]
      rw [List.map_map]
      rfl
    rw [map_content_markFirst, separateFiles, List.map_map, texts, List.zipWith_map,
      List.zipWith_self]
    exact List.map_congr_left fun file _ => fileContent_eq s packageName file.imports [file.decl]
  sizes := by
    rw [List.length_map, List.length_map, ← congrArg List.length (PlannedFile.map_decl_plan found),
      List.length_map]
  framed := by
    intro text member
    obtain ⟨c, kept, rfl⟩ := List.mem_map.mp member
    exact ⟨_, (framed c kept).squeeze, Text.tidy_eq (framed c kept)⟩
  singlePart := by
    refine tidy_composed (fun value member => isImport_of_mem_values (by simp) member) ?_
      (by simpa using some)
    intro text member
    obtain ⟨c, kept, rfl⟩ := List.mem_map.mp member
    exact framed c kept
  separatePart := by
    intro block listed text member
    obtain ⟨file, planned, rfl⟩ := List.mem_map.mp listed
    obtain ⟨c, kept, rfl⟩ := List.mem_map.mp member
    have files : ∀ line ∈ file.imports, PlannedFile.IsFileImport line :=
      fun line member => PlannedFile.isFileImport_of_mem_plan plain planned member
    exact tidy_composed (fun value member => isImport_of_mem_values files member)
      (by simpa using framed c kept) (by simp)
  imports := importLines_agree plain

end Agree

end Infer

/-! ## Runs -/

namespace JsonRequest

variable {request : JsonRequest} {before after : Interview} {found : List ClassDecl}

/-- The classes that are inferred for a request. -/
def inferred (request : JsonRequest) : Except GenerateError (List ClassDecl) :=
  ((Infer.classes request.style request.dates request.engine request.source request.rootName).run
    Infer.freshNamer).1

/-- What the members of the classes depend on. -/
def surroundings (request : JsonRequest) (indent : Text) : Surroundings where
  style := request.style
  indent
  flutter := (request.project.resolve []).flavor == .flutter
  fromJson := true

/-- Decide about the layout of so many classes. -/
def layout (request : JsonRequest) (count : Nat) : Run Bool :=
  match request.separate with
  | some separate => pure separate
  | none => Infer.decideSeparate request.style.separate count

def written (request : JsonRequest) (found : List ClassDecl) (indent : Text) (separate : Bool) :
    GeneratedFiles where
  files :=
    let packageName := (request.project.resolve []).packageName
    Infer.markFirst <|
      if separate then Infer.separateFiles (request.surroundings indent) packageName found
      else [Infer.singleFile (request.surroundings indent) packageName request.rootName found]
  warnings := found.filterMap warning?
  classes := found.map fun c => c.name
  separate

theorem generate_eq (request : JsonRequest) :
    request.generate = (liftM request.inferred : Run _) >>= fun found =>
      if found.isEmpty then throw .noClasses
      else request.layout found.length >>= fun separate =>
        (liftM request.style.indent? : Run _) >>= fun indent =>
          pure (request.written found indent separate) := by
  rw [generate]
  refine bind_congr fun found => ?_
  dsimp only
  split
  · rfl
  · rw [layout]
    cases request.separate <;> rfl

theorem generate_returns {g : GeneratedFiles} :
    request.generate.Returns before g after ↔ ∃ found indent separate,
      request.inferred = .ok found ∧ found ≠ [] ∧
      (request.layout found.length).Returns before separate after ∧
        request.style.indent? = .ok indent ∧
        g = request.written found indent separate := by
  rw [generate_eq, Run.returns_bind]
  constructor
  · rintro ⟨found, between, asked, rest⟩
    obtain ⟨inferred, rfl⟩ := Run.returns_lift.mp asked
    split at rest
    · exact absurd rest Run.returns_throw
    · rename_i some
      obtain ⟨separate, between, decided, rest⟩ := Run.returns_bind.mp rest
      obtain ⟨indent, last, asked, done⟩ := Run.returns_bind.mp rest
      obtain ⟨usable, rfl⟩ := Run.returns_lift.mp asked
      obtain ⟨rfl, rfl⟩ := Run.returns_pure.mp done
      exact ⟨found, indent, separate, inferred, by simpa using some, decided, usable, rfl⟩
  · rintro ⟨found, indent, separate, inferred, some, decided, usable, rfl⟩
    refine ⟨found, before, Run.returns_lift.mpr ⟨inferred, rfl⟩, ?_⟩
    rw [if_neg (by simpa using some)]
    exact Run.returns_bind.mpr ⟨separate, after, decided,
      Run.returns_bind.mpr ⟨indent, after, Run.returns_lift.mpr ⟨usable, rfl⟩,
        Run.returns_pure.mpr ⟨rfl, rfl⟩⟩⟩

/-- What a request is answered with, whoever decides about the layout, and how its two layouts
    agree. -/
theorem written_of_accepted (accepted : request.inferred = .ok found) :
    ∃ indent, request.style.indent? = .ok indent ∧ found ≠ [] ∧
      (∀ before g after, request.generate.Returns before g after →
        g = request.written found indent g.separate) ∧
      let s := request.surroundings indent
      let packageName := (request.project.resolve []).packageName
      let planned := PlannedFile.plan found
      Infer.LayoutsAgree (request.written found indent false).files
        (request.written found indent true).files
        (Infer.importBlock (Infer.importsFor s packageName [] found))
        (planned.map fun file => Infer.importBlock
          (Infer.importsFor s packageName file.imports [file.decl]))
        (found.map (Infer.classText s)) (planned.flatMap (·.imports)) := by
  obtain ⟨indent, root, read, each, all⟩ := Infer.visited_of_classes accepted
  have some : found ≠ [] := by
    obtain ⟨d, kept, -⟩ := all request.rootName root (.here .object)
    exact List.ne_nil_of_mem kept
  have plain : ∀ c ∈ found, c.name.IsPlain := by
    intro c kept
    obtain ⟨named, members, -, rfl⟩ := each c kept
    exact Name.isPlain_className named
  have framed : ∀ c ∈ found,
      Text.Framed (Text.trimmedLines (Infer.classText (request.surroundings indent) c)) := by
    intro c kept
    obtain ⟨named, members, -, rfl⟩ := each c kept
    exact Infer.framed_classText read.usable
  refine ⟨indent, read.usable, some, ?_,
    Infer.layoutsAgree_of_framed plain _ request.rootName some framed⟩
  intro before g after returned
  obtain ⟨other, width, separate, inferred, -, -, usable, rfl⟩ := generate_returns.mp returned
  obtain rfl : found = other := Except.ok.inj (accepted.symm.trans inferred)
  obtain rfl : indent = width := Except.ok.inj (read.usable.symm.trans usable)
  rfl

/-- One file for all classes and a file for each hold the same class texts, and these are the
    files that a request is answered with, whoever decides about the layout. -/
theorem layouts_agree (accepted : request.inferred = .ok found) :
    ∃ indent, request.style.indent? = .ok indent ∧
      (∀ before g after, request.generate.Returns before g after →
        g = request.written found indent g.separate) ∧
      (∀ separate before,
        ({ request with separate := some separate } : JsonRequest).generate.Returns before
        (request.written found indent separate) before) ∧
      let s := request.surroundings indent
      let packageName := (request.project.resolve []).packageName
      let planned := PlannedFile.plan found
      planned.map (·.decl) = found ∧
        Infer.LayoutsAgree (request.written found indent false).files
          (request.written found indent true).files
          (Infer.importBlock (Infer.importsFor s packageName [] found))
          (planned.map fun file => Infer.importBlock
            (Infer.importsFor s packageName file.imports [file.decl]))
          (found.map (Infer.classText s)) (planned.flatMap (·.imports)) := by
  obtain ⟨indent, usable, some, returned, agree⟩ := written_of_accepted accepted
  refine ⟨indent, usable, returned, ?_, PlannedFile.map_decl_plan found, agree⟩
  intro separate before
  exact generate_returns.mpr
    ⟨found, indent, separate, accepted, some, Run.returns_pure.mpr ⟨rfl, rfl⟩, usable, rfl⟩

/-- In `\x7b"a": \x7b"b": 1\x7d\x7d` the first of two files imports the second, and the one
    file does not. -/
theorem layouts_agree_pair :
    let request : JsonRequest :=
      { source := .value (.obj [("a", .obj [("b", .int 1)])]), rootName := "Root" }
    let found := [Infer.classFor {} .calendar "  " "Root" [("a", .obj [("b", .int 1)])],
      Infer.classFor {} .calendar "  " "a" [("b", .int 1)]]
    request.inferred = .ok found ∧
      ((PlannedFile.plan found).map (·.imports) = [["import 'a.dart';".toList], []]) ∧
      (request.written found "  " false).files.length = 1 ∧
        (request.written found "  " true).files.length = 2 ∧
      "import 'a.dart';".toList ∉ Infer.importLines
        (Infer.importBlock (Infer.importsFor (request.surroundings "  ") none [] found)) := by
  intro request found
  have accepted : request.inferred = .ok found := by decide +kernel
  have crossed : (PlannedFile.plan found).map (·.imports) = [["import 'a.dart';".toList], []] := by
    decide +kernel
  obtain ⟨indent, spaces, -, -, -, agree⟩ := layouts_agree accepted
  obtain rfl : "  ".toList = indent := Except.ok.inj spaces
  have crossing : "import 'a.dart';".toList ∈ (PlannedFile.plan found).flatMap (·.imports) := by
    rw [List.flatMap_def, crossed]
    decide
  refine ⟨accepted, crossed, ?_, ?_, fun member => ((agree.imports _).mp member).2 crossing⟩
  · simpa using congrArg List.length agree.single
  · have planned : (PlannedFile.plan found).length = 2 := by
      simpa using congrArg List.length crossed
    have classes : found.length = 2 := rfl
    have files := congrArg List.length agree.separate
    rwa [List.length_map, List.length_zipWith, List.length_map, List.length_map, planned, classes,
      Nat.min_self] at files

end JsonRequest

end ValueClass
