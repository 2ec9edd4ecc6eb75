import ValueClass.Proofs.Edit.Lower
import ValueClass.Proofs.Generate.Run

/-! # Classes do not influence each other

What a run plans for a closed class can be read off the lines of the class alone. The
scanner carries nothing over from the lines above, and what is pending for a class
depends on the class and the settings, once the flavor of the project is given.
-/

namespace ValueClass

open Dart

/-- Whether an edit takes the lines of a class. -/
def LineEdit.rewritesClass (c : ClassDecl) (e : LineEdit) : Bool :=
  e.start + 1 == c.firstLine && c.lastLine.any fun last : Nat => e.stop == (last : Int)

namespace Request

variable {request : Request} {text indent : Text} {c : ClassDecl}

/-- The text of the edit that a run without questions plans for a class, if it plans one. -/
def planFor (request : Request) (text : Text) (c : ClassDecl) : Option Text :=
  match request.unattended text with
  | .ok g => (g.edits.find? (·.rewritesClass c)).map (·.text)
  | .error _ => none

/-- The edit of the lines of a class is the one of its draft. -/
theorem edit?_of_rewritesClass (found : c ∈ scan text) {e : LineEdit}
    (planned : e ∈ (request.written text indent).edits) (same : e.rewritesClass c) :
    c ∈ request.targets text ∧
      (draftFor (request.surroundings text indent) request.selector c).edit? = some e := by
  simp only [LineEdit.rewritesClass, Bool.and_eq_true, beq_iff_eq, Option.any_eq_true] at same
  obtain ⟨start, last, ending, stop⟩ := same
  have height := (standsIn_of_mem_scan found).ending last ending
  have bound := (standsIn_of_mem_scan found).bound
  obtain ⟨line, body, lines, -⟩ := (standsIn_of_mem_scan found).header
  have size := congrArg List.length lines
  rw [List.length_cons] at size
  replace planned : e ∈ planEdits (request.pending text indent).2 (request.pending text indent).1 :=
    planned
  rw [pending_eq] at planned
  rcases List.mem_append.mp planned with member | member
  · obtain ⟨d, drafted, edit⟩ := List.mem_filterMap.mp member
    obtain ⟨c', target, rfl⟩ := List.mem_map.mp (List.mem_reverse.mp drafted)
    have scanned := targets_sublist.subset target
    have alike := alike_draftFor (request.surroundings text indent) request.selector c'
    have isOf : (draftFor (request.surroundings text indent) request.selector c').IsOf c' :=
      alike.body
    have place := Draft.edit?_eq_some (isOf.standsIn (standsIn_of_mem_scan scanned)) edit
    rw [alike.firstLine, alike.lines] at place
    have only : c' = c := by
      by_contra other
      rw [place] at start
      dsimp only at start
      rcases scan_apart scanned found other with before | before <;> rw [ClassDecl.Before] at before
      · obtain ⟨line', body', lines', -⟩ := (standsIn_of_mem_scan scanned).header
        have size' := congrArg List.length lines'
        rw [List.length_cons] at size'
        omega
      · omega
    subst only
    exact ⟨target, edit⟩
  · have above := Imports.requireAll_above ((request.targets text).flatMap
      (needsFor (request.surroundings text indent) request.selector))
      (Imports.ofText_above_class request.project.packageName found)
    have := Imports.edit?_above above (Option.mem_toList.mp member)
    omega

theorem rewritesClass_of_edit? {s : Surroundings} {selector : Option MemberKind} {e : LineEdit}
    (edit : (draftFor s selector c).edit? = some e) : e.rewritesClass c := by
  have alike := alike_draftFor s selector c
  simp only [Draft.edit?, alike.firstLine] at edit
  rw [show (draftFor s selector c).decl.lastLine = c.lastLine by rw [alike.body]] at edit
  split at edit
  · rename_i last ending
    split at edit
    · cases edit
      simp [LineEdit.rewritesClass, ending]
    · cases edit
  · cases edit

/-- A class gets the edit of its draft, where members are written for it. -/
theorem find?_written (found : c ∈ scan text) :
    (request.written text indent).edits.find? (·.rewritesClass c) =
      if c ∈ request.targets text then
        (draftFor (request.surroundings text indent) request.selector c).edit? else none := by
  cases first : (request.written text indent).edits.find? (·.rewritesClass c) with
  | some e =>
      obtain ⟨target, edit⟩ :=
        edit?_of_rewritesClass found (List.mem_of_find?_eq_some first) (List.find?_some first)
      rw [if_pos target, edit]
  | none =>
      split
      · rename_i target
        cases edit : (draftFor (request.surroundings text indent) request.selector c).edit? with
        | none => rfl
        | some e =>
            have planned : e ∈ planEdits (request.pending text indent).2
                (request.pending text indent).1 := by
              rw [pending_eq]
              refine List.mem_append_left _ (List.mem_filterMap.mpr ⟨_, ?_, edit⟩)
              exact List.mem_reverse.mpr (List.mem_map_of_mem target)
            exact absurd (rewritesClass_of_edit? edit) (List.find?_eq_none.mp first e planned)
      · rfl

theorem mem_targets : c ∈ request.targets text ↔ c ∈ scan text ∧ request.named c ∧ c.isValid := by
  simp only [targets, List.mem_filter, and_assoc]

/-- The plan for a class follows from the class, the settings and the flavor. -/
theorem planFor_eq (found : c ∈ scan text) :
    request.planFor text c = match request.style.indent? with
      | .ok indent => if request.named c && c.isValid then
          (draftFor (request.surroundings text indent) request.selector c).edit?.map (·.text)
            else none
      | .error _ => none := by
  have target : (c ∈ request.targets text) ↔ (request.named c && c.isValid) := by
    rw [mem_targets, Bool.and_eq_true]
    exact and_iff_right found
  rw [planFor]
  cases outcome : request.unattended text with
  | ok g =>
      obtain ⟨-, indent, style, rfl⟩ := unattended_eq_ok.mp outcome
      simp only [style, find?_written found, target]
      split <;> rfl
  | error e =>
      cases style : request.style.indent? with
      | error _ => rfl
      | ok indent =>
          have missing : c ∉ request.targets text := by
            intro member
            have ok := unattended_eq_ok.mpr ⟨List.ne_nil_of_mem member, indent, style, rfl⟩
            rw [outcome] at ok
            cases ok
          rw [target] at missing
          simp only [missing]
          rfl

theorem surroundings_of_flavor (given : request.project.flavor ≠ .auto) (other : Text) :
    request.surroundings text indent = request.surroundings other indent := by
  have fixed : ∀ lines, request.project.resolve lines = request.project := by
    intro lines
    rw [Project.resolve]
    split
    · contradiction
    · rfl
  simp only [surroundings, fixed]

/-- Every closed class is read from its lines alone as in the buffer, only further up,
    and a run plans the same text for it in both. -/
theorem planFor_content (found : c ∈ scan text) (closed : c.lastLine ≠ none) :
    ∃ alone, scan c.content = [alone] ∧ alone.firstLine = 1 ∧ c = alone.lower (c.firstLine - 1) ∧
      ∀ request : Request, request.project.flavor ≠ .auto →
        request.planFor text c = request.planFor c.content alone := by
  obtain ⟨alone, first, scanned, same⟩ := scan_content found closed
  refine ⟨alone, scanned, first, same, ?_⟩
  intro request given
  have here : alone ∈ scan c.content := by simp [scanned]
  have named : request.named c = request.named alone := by
    rw [same]
    rfl
  have valid : c.isValid = alone.isValid := by rw [same, ClassDecl.isValid_lower]
  rw [planFor_eq found, planFor_eq here, named, valid]
  have edit : ∀ s, (draftFor s request.selector c).edit? =
      (draftFor s request.selector alone).edit?.map (·.lower (c.firstLine - 1)) := by
    intro s
    rw [← Draft.edit?_lower, ← Draft.draftFor_lower, ← same]
  cases request.style.indent? with
  | error _ => rfl
  | ok indent =>
      dsimp only
      rw [surroundings_of_flavor given c.content, edit, Option.map_map]
      rfl

/-- A class below one that never ends still gets its members. -/
theorem planFor_content_below_unclosed :
    let text : Text := "class X \x7b\nclass A \x7b\n  int a;\n\x7d"
    let request : Request := { project := { flavor := .dart }, selector := some .toJson }
    ∃ c ∈ scan text, c.firstLine = 2 ∧ c.lastLine ≠ none ∧ request.project.flavor ≠ .auto ∧
      request.planFor text c =
        some "class A \x7b\n  int a;\n\n  String toJson() => json.encode(toMap());\n\x7d" ∧
      ∃ alone, scan c.content = [alone] ∧ alone.firstLine = 1 ∧ c = alone.lower 1 ∧
        request.planFor text c = request.planFor c.content alone := by
  intro text request
  obtain ⟨c, found, first, closed, plan⟩ : ∃ c ∈ scan text, c.firstLine = 2 ∧ c.lastLine ≠ none ∧
      request.planFor text c =
        some "class A \x7b\n  int a;\n\n  String toJson() => json.encode(toMap());\n\x7d" := by
    decide +kernel
  obtain ⟨alone, scanned, top, same, plans⟩ := planFor_content found closed
  rw [first] at same
  exact ⟨c, found, first, closed, by decide, plan, alone, scanned, top, same,
    plans request (by decide)⟩

end Request

end ValueClass
