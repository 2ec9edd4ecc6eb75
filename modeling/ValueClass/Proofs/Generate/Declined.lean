import ValueClass.Proofs.Dart.ImportStatement
import ValueClass.Proofs.Generate.Review

/-! # Runs that the user declines

Members are written before the user is asked about them, and a member that is written asks
for the libraries it calls. Declining its replacement takes back the text of the member and
not the libraries: a run whose replacements are all declined leaves the buffer as it is just
when none of these libraries was lacking.
-/

namespace ValueClass

namespace Dart

/-! ## When the import block is rewritten -/

namespace Imports

variable {text : Text} {packageName : Option Text} {imports : Imports} {needs : List LibraryNeed}

theorem edit?_eq_none_iff : imports.edit? = none ↔ imports.changed = false := by
  rw [edit?]
  split
  · rename_i changed
    constructor
    · intro none
      split at none <;> cases none
    · intro unchanged
      rw [changed] at unchanged
      cases unchanged
  · rename_i unchanged
    simpa using unchanged

theorem changed_eq_false_iff (entries : ∀ value ∈ imports.values, IsEntry value) :
    imports.changed = false ↔ imports.raw.ink = imports.groups.flatten.flatMap Text.ink := by
  rw [changed, Bool.not_eq_false', Text.sameInk, beq_iff_eq, formatted_eq entries,
    Text.ink_unlines (spaced _), flatMap_ink_spaced]

/-- A block that is written as it stands is rewritten as soon as there is one more directive. -/
theorem Asked.changed_iff (asked : Asked text packageName imports)
    (settled : (ofText text packageName).changed = false) :
    imports.changed = false ↔ imports.values ⊆ (ofText text packageName).values := by
  obtain ⟨added, same, entries⟩ := asked.values
  have raw : imports.raw = (ofText text packageName).raw := by rw [same]; rfl
  have package : imports.packageName = (ofText text packageName).packageName := by rw [same]
  have kept : (ofText text packageName).values ⊆ imports.values := by
    rw [same]
    exact fun line member => List.mem_append_left _ member
  have before := (ofText text packageName).isGrouped_groups
  have after := imports.isGrouped_groups
  constructor
  · intro unchanged line member
    have old := (changed_eq_false_iff fun value => isEntry_of_mem_ofText).mp settled
    have new := (changed_eq_false_iff entries).mp unchanged
    have part : (ofText text packageName).groups.flatten ⊆ imports.groups.flatten := fun l inside =>
      (after.mem_iff l).mpr (kept ((before.mem_iff l).mp inside))
    have listed : ∀ l ∈ imports.groups.flatten, IsEntry l :=
      fun l inside => entries l ((after.mem_iff l).mp inside)
    have back := subset_of_same_ink before.nodup part listed (old.symm.trans (raw ▸ new))
    exact (before.mem_iff line).mp (back ((after.mem_iff line).mpr member))
  · intro covered
    have formatted : imports.formatted = (ofText text packageName).formatted :=
      formatted_congr package fun line => ⟨fun member => covered member, fun member => kept member⟩
    rw [changed, raw, formatted]
    exact settled

theorem requireAll_subset_iff :
    (imports.requireAll needs).values ⊆ imports.values ↔
      ∀ need ∈ needs, imports.lacks need.path need.umbrellas = false := by
  induction needs with
  | nil => simp [requireAll]
  | cons need rest ih =>
      rw [List.forall_mem_cons, ← ih, requireAll, List.foldl_cons, ← requireAll, require_eq]
      cases lacks : imports.lacks need.path need.umbrellas with
      | false => simp
      | true =>
          obtain ⟨added, same⟩ := exists_requireAll { imports with values :=
            imports.values ++ [importLine need.path] } rest
          have missing : importLine need.path ∉ imports.values := by
            rw [Imports.lacks, includes, Bool.not_eq_true', Bool.or_eq_false_iff] at lacks
            simpa using lacks.1
          simp only [if_true, same, Bool.true_eq_false, false_and, iff_false]
          intro covered
          exact missing (covered (by simp))

theorem edit?_requireAll_eq_none_iff (known : needs ⊆ memberLibraries)
    (settled : (ofText text packageName).changed = false) :
    ((ofText text packageName).requireAll needs).edit? = none ↔
      ∀ need ∈ needs, (ofText text packageName).lacks need.path need.umbrellas = false := by
  have asked : Asked text packageName ((ofText text packageName).requireAll needs) :=
    .requireAll known .read
  rw [edit?_eq_none_iff, asked.changed_iff settled, requireAll_subset_iff]

end Imports

/-! ## Declined drafts -/

theorem keptOf_declined (each : Bool) (scheduled : List Replacement) {answers : List Bool}
    (declined : ∀ answer ∈ answers, answer = false) : keptOf each scheduled answers = [] := by
  cases each with
  | true =>
      simp only [keptOf, if_true, List.map_eq_nil_iff, List.filter_eq_nil_iff]
      intro pair member
      rw [declined _ (List.of_mem_zip member).2]
      simp
  | false =>
      cases answers with
      | nil => rfl
      | cons answer others =>
          rw [declined answer (by simp)]
          rfl

theorem edit?_answeredAll_declined {each : Bool} {drafts : List Draft} {answers : List Bool}
    (declined : ∀ answer ∈ answers, answer = false)
    (only : ∀ d ∈ drafts, d.inserted = [] ∧ d.appended = [] ∧ d.headerChanged = false) :
    ∀ d ∈ answeredAll each drafts answers, d.edit? = none := by
  induction drafts generalizing answers with
  | nil => simp [answeredAll]
  | cons first rest ih =>
      obtain ⟨⟨inserted, appended, header⟩, others⟩ := List.forall_mem_cons.mp only
      refine List.forall_mem_cons.mpr ⟨?_,
        ih (fun answer member => declined answer (List.mem_of_mem_drop member)) others⟩
      have idle : (first.answered each answers).hasChanges = false := by
        simp [Draft.answered, Draft.hasChanges, keptOf_declined each _ declined, inserted, appended,
          header]
      rw [Draft.edit?, idle]
      cases (first.answered each answers).decl.lastLine <;> simp

end Dart

/-! ## The whole run -/

namespace Request

open Dart

variable {request : Request} {text indent : Text}

/-- The libraries that the members of a run call. -/
def needs (request : Request) (text indent : Text) : List LibraryNeed :=
  (request.targets text).flatMap (needsFor (request.surroundings text indent) request.selector)

variable {imports : Imports} {drafts : List Draft}

theorem edits_finish_of_quiet (quiet : ∀ d ∈ drafts, d.edit? = none) :
    (request.finish text imports drafts).edits = imports.edit?.toList := by
  rw [finish, planEdits,
    List.filterMap_eq_nil_iff.mpr fun d member => quiet d (List.mem_reverse.mp member)]
  rfl

theorem code_finish_of_idle (idle : (request.finish text imports drafts).edits = []) :
    (request.finish text imports drafts).code = text := by
  have edited : (request.finish text imports drafts).code =
      LineEdit.applyAll (request.finish text imports drafts).edits text := rfl
  rw [edited, idle]
  exact Text.unlines_lines text

/-- A run that only replaces members, and that the user declines, returns. It edits nothing
    but the import block, and it edits that one unless every library is there that the
    declined members call. -/
theorem generate_declined (found : request.targets text ≠ [])
    (style : request.style.indent? = .ok indent)
    (settled : (Imports.ofText text request.project.packageName).changed = false)
    (only : ∀ d ∈ request.drafts text indent, d.inserted = [] ∧ d.appended = [] ∧
      d.headerChanged = false)
    {replies : List Reply}
    (declined : ∀ k < (request.questions text indent).length, Reply.at replies k = .decline) :
    let read := Imports.ofText text request.project.packageName
    ∃ g, (request.generate text).Returns { script := some replies } g
        { script := some (replies.drop (request.questions text indent).length),
          asked := request.questions text indent } ∧
      g.edits = (read.requireAll (request.needs text indent)).edit?.toList ∧
      ((g.edits = [] ∧ g.code = text) ↔
        ∀ need ∈ request.needs text indent, read.lacks need.path need.umbrellas = false) := by
  intro read
  have imports : (request.pending text indent).1 = read.requireAll (request.needs text indent) := by
    rw [pending_eq]
    rfl
  have known : request.needs text indent ⊆ memberLibraries := by
    intro need member
    obtain ⟨c, -, asked⟩ := List.mem_flatMap.mp member
    exact needsFor_subset _ _ c asked
  have none : ∀ answer ∈ (replies.take (request.questions text indent).length).map Reply.accepts,
      answer = false := by
    intro answer member
    obtain ⟨reply, taken, rfl⟩ := List.mem_map.mp member
    obtain ⟨k, bound, rfl⟩ := List.mem_take_iff_getElem.mp taken
    have here := declined k (by omega)
    rw [Reply.at, List.getElem?_eq_getElem (by omega), Option.getD_some] at here
    rw [here]
    rfl
  have answered : ∀ k < (request.questions text indent).length, Reply.at replies k ≠ .cancel := by
    intro k bound
    rw [declined k bound]
    simp
  have run := Run.result_confirmAll []
      (fun answers => (pure (request.finish text (request.pending text indent).1
    (answeredAll request.style.reviewsEachMember (request.drafts text indent) answers)) :
      Run Generated)) answered
  rw [← generate_eq_confirmAll found style, Run.result_pure, imports] at run
  refine ⟨_, run, ?_⟩
  have edits : (request.finish text (read.requireAll (request.needs text indent))
      (answeredAll request.style.reviewsEachMember (request.drafts text indent)
        ((replies.take (request.questions text indent).length).map Reply.accepts))).edits = _ :=
    edits_finish_of_quiet (edit?_answeredAll_declined none only)
  refine ⟨edits, ?_⟩
  rw [← Imports.edit?_requireAll_eq_none_iff known settled]
  constructor
  · rintro ⟨nothing, -⟩
    rw [edits] at nothing
    simpa using nothing
  · intro nothing
    have idle := edits.trans (congrArg Option.toList nothing)
    exact ⟨idle, code_finish_of_idle idle⟩

/-- A member that stands there is declined. It would call a library that is lacking, and so
    the library is imported. -/
theorem generate_declined_toJson :
    let request : Request := { selector := some .toJson }
    let text : Text :=
      Text.unlines ["class A \x7b", "  final int x;", "", "  String toJson() => 'x';", "\x7d", ""]
    ∃ g after, (request.generate text).Returns { script := some [.decline] } g after ∧
      after.asked = [classQuestion "A"] ∧
      ¬ (g.edits = [] ∧ g.code = text) := by
  intro request text
  obtain ⟨found, settled, only, questions, lacking⟩ : request.targets text ≠ [] ∧
      (Imports.ofText text request.project.packageName).changed = false ∧
      (∀ d ∈ request.drafts text "  ", d.inserted = [] ∧ d.appended = [] ∧
        d.headerChanged = false) ∧
      request.questions text "  " = [classQuestion "A"] ∧
      ¬ ∀ need ∈ request.needs text "  ",
        (Imports.ofText text request.project.packageName).lacks need.path
          need.umbrellas = false := by
    decide +kernel
  have declined : ∀ k < (request.questions text "  ").length, Reply.at [.decline] k = .decline := by
    rw [questions]
    decide
  have style : request.style.indent? = .ok "  ".toList := rfl
  obtain ⟨g, returned, -, same⟩ := generate_declined found style settled only declined
  refine ⟨g, _, returned, questions, ?_⟩
  rw [same]
  exact lacking

end Request

end ValueClass
