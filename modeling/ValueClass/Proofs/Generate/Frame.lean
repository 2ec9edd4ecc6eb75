import ValueClass.Proofs.Generate.Run

/-! # What a run leaves alone

A line that no edit rewrites is still there afterwards: a class is written back
line by line, so only its changed header and the spans of its replacements are
lost, and the import block is lost only when it is written anew.
-/

namespace ValueClass

/-- The lines from an index on that are not touched. -/
def untouched (touched : Nat → Bool) (index : Nat) (lines : List Text) : List Text :=
  ((lines.zipIdx index).filter fun line => !touched line.2).map (·.1)

section Untouched

variable {touched : Nat → Bool} {index : Nat}

@[simp] theorem untouched_nil : untouched touched index [] = [] := rfl

theorem untouched_append (a b : List Text) :
    untouched touched index (a ++ b) =
      untouched touched index a ++ untouched touched (index + a.length) b := by
  simp [untouched, List.zipIdx_append]

theorem untouched_cons (line : Text) (rest : List Text) :
    untouched touched index (line :: rest) =
      (if touched index then [] else [line]) ++ untouched touched (index + 1) rest := by
  cases h : touched index <;> simp [untouched, List.zipIdx_cons, h]

theorem untouched_sublist (lines : List Text) : (untouched touched index lines).Sublist lines := by
  have := (List.filter_sublist (p := fun line : Text × Nat => !touched line.2)
    (l := lines.zipIdx index)).map (·.1)
  simpa [untouched] using this

theorem untouched_eq_nil {lines : List Text}
    (h : ∀ i, index ≤ i → i < index + lines.length → touched i) :
    untouched touched index lines = [] := by
  induction lines generalizing index with
  | nil => rfl
  | cons line rest ih =>
      simp only [List.length_cons] at h
      rw [untouched_cons, if_pos (h index (Nat.le_refl _) (by omega)), ih]
      · rfl
      · intro i low high
        exact h i (by omega) (by omega)

end Untouched

namespace LineEdit

/-- Where the text of every edit keeps what is not touched of its range, applying
    the edits keeps all that is not touched. -/
theorem untouched_sublist_foldl {touched : Nat → Bool} {edits : List LineEdit} {lines : List Text}
    (plan : BottomUp lines.length edits)
    (kept : ∀ e ∈ edits, (untouched touched e.start.toNat (e.range lines)).Sublist e.text.lines) :
    (untouched touched 0 lines).Sublist (edits.foldl (fun ls e => e.applyTo ls) lines) := by
  induction edits generalizing lines with
  | nil => exact untouched_sublist lines
  | cons e rest ih =>
      obtain ⟨start, order, stop⟩ := plan.inRange e (by simp)
      have bound : (lines.take e.start.toNat).length = e.start.toNat := by
        rw [List.length_take]
        omega
      have upper : (untouched touched 0 (lines.take e.start.toNat)).Sublist
          (rest.foldl (fun ls e => e.applyTo ls) (lines.take e.start.toNat)) := by
        apply ih
        · rw [bound]
          exact plan.tail
        · intro x member
          rw [range_take (plan.tail.inRange x member).2.2]
          exact kept x (List.mem_cons_of_mem _ member)
      rw [foldl_applyTo_cons plan, List.append_assoc]
      conv_lhs => rw [← take_range_drop lines order]
      rw [untouched_append, untouched_append, bound, Nat.zero_add]
      exact upper.append ((kept e (by simp)).append (untouched_sublist _))

/-- Lines that no edit reaches stay together. -/
theorem infix_foldl {edits : List LineEdit} {above segment below : List Text}
    (plan : BottomUp (above ++ segment ++ below).length edits)
    (apart : ∀ e ∈ edits, e.stop ≤ above.length ∨
      (above.length + segment.length : Int) ≤ e.start) :
    segment <:+: edits.foldl (fun ls e => e.applyTo ls) (above ++ segment ++ below) := by
  induction edits generalizing below with
  | nil => exact ⟨above, below, rfl⟩
  | cons e rest ih =>
      obtain ⟨start, order, stop⟩ := plan.inRange e (by simp)
      rw [foldl_applyTo_cons plan]
      rcases apart e (by simp) with higher | lower
      · rw [List.append_assoc above, List.drop_append_of_le_length (by omega), ← List.append_assoc]
        exact ⟨_, below, List.append_assoc _ _ _⟩
      · have cut : (above ++ segment ++ below).take e.start.toNat =
            above ++ segment ++ below.take (e.start.toNat - (above.length + segment.length)) := by
          rw [List.take_append, List.take_of_length_le]
          · simp
          · simp only [List.length_append]
            omega
        have size : ((above ++ segment ++ below).take e.start.toNat).length = e.start.toNat := by
          rw [List.length_take]
          omega
        have inner := plan.tail
        rw [← size, cut] at inner
        rw [cut, List.append_assoc]
        exact (ih inner fun x member => apart x (List.mem_cons_of_mem _ member)).trans
          (List.prefix_append _ _).isInfix

end LineEdit

namespace Dart

/-! ## Inside a class -/

namespace Draft

variable {d : Draft} {touched : Nat → Bool}

theorem untouched_sublist_bodyTexts {index : Nat} {written body : List Text}
    (free : ∀ i, touched i = false → d.replacementAt? (i + 1) = none)
    (whole : ∀ line ∈ body, '\n' ∉ line) :
    (untouched touched index body).Sublist
      ((d.bodyTexts written (index + 1) body).flatMap Text.lines) := by
  induction body generalizing index written with
  | nil => simp
  | cons line rest ih =>
      have here : (if touched index then [] else [line]).Sublist
          ((d.lineTexts written (index + 1) rest.isEmpty line).1.flatMap Text.lines) := by
        split
        · exact List.nil_sublist _
        · rename_i h
          have own : line.lines = [line] := Text.lines_of_notMem (whole line (by simp))
          rw [lineTexts, free index (by simpa using h)]
          dsimp only
          split <;> simp [own]
      rw [untouched_cons, bodyTexts, List.flatMap_append, List.flatMap_append, List.append_assoc]
      refine here.append (.trans ?_ (List.sublist_append_right _ _))
      exact ih fun l member => whole l (List.mem_cons_of_mem _ member)

/-- A class that is written back keeps every line but its changed header and the
    spans of its replacements. -/
theorem untouched_sublist_render {buffer : List Text} (stands : d.decl.StandsIn buffer)
    (whole : ∀ line ∈ buffer, '\n' ∉ line)
    (free : ∀ i, touched i = false → d.replacementAt? (i + 1) = none)
    (header : d.headerChanged → touched (d.decl.firstLine - 1)) :
    (untouched touched (d.decl.firstLine - 1) d.decl.lines).Sublist d.render.lines := by
  obtain ⟨above, below, split, -⟩ := stands.place
  obtain ⟨line, body, lines, -⟩ := stands.header
  have inside : ∀ l ∈ d.decl.lines, '\n' ∉ l := fun l member => whole l (by simp [split, member])
  have first := stands.bound.1
  rw [lines] at inside
  rw [lines, render, lines]
  dsimp only
  rw [Text.lines_unlines_flatMap (by simp), List.flatMap_cons, List.flatMap_append, untouched_cons,
    show d.decl.firstLine + 1 = d.decl.firstLine - 1 + 1 + 1 by omega]
  refine .append ?_ (.trans ?_ (List.sublist_append_right _ _))
  · split
    · exact List.nil_sublist _
    · rename_i h
      have same : d.headerChanged = false := by
        cases changed : d.headerChanged with
        | false => rfl
        | true => exact absurd (header changed) h
      simp [same, Text.lines_of_notMem (inside line (by simp))]
  · exact untouched_sublist_bodyTexts free fun l member => inside l (List.mem_cons_of_mem _ member)

end Draft

/-- Whether a line is written anew: it lies in an import block that is edited, it
    is a header that changes, or a replacement covers it. The line is counted from
    zero. -/
def rewrites (imports : Imports) (drafts : List Draft) (index : Nat) : Bool :=
  (imports.edit?.isSome && imports.block.any fun (first, last) => first ≤ index && index ≤ last) ||
    drafts.any fun d => (d.headerChanged && d.decl.firstLine == index + 1) ||
      d.replacements.any fun r => r.span.covers (index + 1)

section Rewrites

variable {imports : Imports} {drafts : List Draft}

theorem untouched_sublist_classEdit {text : Text} {d : Draft} {e : LineEdit}
    (pending : DraftsOf text drafts) (member : d ∈ drafts) (edit : d.edit? = some e) :
    (untouched (rewrites imports drafts) e.start.toNat (e.range text.lines)).Sublist
      e.text.lines := by
  have stands := pending.standsIn member
  obtain ⟨above, below, split, first⟩ := stands.place
  have range : e.range text.lines = d.decl.lines := by
    rw [Draft.edit?_eq_some stands edit, LineEdit.range, split]
    dsimp only
    rw [show ((d.decl.firstLine : Int) - 1).toNat = above.length by omega,
      show ((d.decl.firstLine : Int) - 1 + d.decl.lines.length).toNat - above.length =
        d.decl.lines.length by omega, List.append_assoc, List.drop_left, List.take_left]
  rw [range, Draft.edit?_eq_some stands edit]
  dsimp only
  rw [show ((d.decl.firstLine : Int) - 1).toNat = d.decl.firstLine - 1 by omega]
  apply Draft.untouched_sublist_render stands fun _ => Text.notMem_of_mem_lines
  · intro i free
    rw [Draft.replacementAt?, List.find?_eq_none]
    intro r found covered
    have : rewrites imports drafts i = true := by
      simp only [rewrites, Bool.or_eq_true, List.any_eq_true]
      exact .inr ⟨d, member, .inr ⟨r, found, covered⟩⟩
    rw [this] at free
    simp at free
  · intro changed
    simp only [rewrites, Bool.or_eq_true, List.any_eq_true]
    refine .inr ⟨d, member, .inl ?_⟩
    simp only [changed, Bool.true_and, beq_iff_eq]
    omega

theorem untouched_sublist_importEdit {e : LineEdit} (lines : List Text)
    (edit : imports.edit? = some e) :
    (untouched (rewrites imports drafts) e.start.toNat (e.range lines)).Sublist e.text.lines := by
  have gone : untouched (rewrites imports drafts) e.start.toNat (e.range lines) = [] := by
    apply untouched_eq_nil
    intro i low high
    have size : (e.range lines).length ≤ e.stop.toNat - e.start.toNat := List.length_take_le _ _
    have planned : imports.edit?.isSome := by simp [edit]
    simp only [Imports.edit?] at edit
    split at edit
    · split at edit
      · rename_i first last block
        cases edit
        simp only [rewrites, Bool.or_eq_true]
        refine .inl ?_
        simp only [planned, block, Option.any_some, Bool.true_and, Bool.and_eq_true,
          decide_eq_true_eq]
        dsimp only at low high size
        omega
      · cases edit
        dsimp only at low high size
        omega
    · simp at edit
  rw [gone]
  exact List.nil_sublist _

end Rewrites

end Dart

open Dart in
/-- A successful run keeps, in order, every line that it does not write anew. When
    only classes of one name are written for, every other class is kept whole. -/
theorem Request.generate_keeps_untouched {request : Request} {text : Text}
    {before after : Interview} {g : Generated}
    (returned : (request.generate text).Returns before g after) :
    ∃ imports drafts, (request.reviewed text).Returns before (imports, drafts) after ∧
      (untouched (rewrites imports drafts) 0 text.lines).Sublist g.code.lines ∧
      ∀ name, request.className = some name → ∀ c ∈ scan text, c.header.name ≠ some name →
        c.lines <:+: g.code.lines := by
  obtain ⟨imports, drafts, left, rfl⟩ := generate_returns.mp returned
  obtain ⟨isOf, needs, required⟩ := isOf_of_reviewed left
  have pending : DraftsOf text drafts := ⟨request.targets text, targets_sublist, isOf⟩
  have above : ∀ c ∈ scan text, imports.Above (c.firstLine - 1) := by
    intro c found
    rw [required]
    exact Imports.requireAll_above needs (Imports.ofText_above_class _ found)
  have plan : LineEdit.BottomUp text.lines.length (planEdits drafts imports) := by
    apply planEdits_bottomUp pending _ above
    rw [required]
    exact Imports.requireAll_above needs (Imports.ofText_inside text _)
  refine ⟨imports, drafts, left, ?_, ?_⟩
  · rw [finish, LineEdit.lines_applyAll, LineEdit.bottomUp_eq_self plan.descending]
    apply LineEdit.untouched_sublist_foldl plan
    intro e member
    rcases List.mem_append.mp member with member | member
    · obtain ⟨d, found, edit⟩ := List.mem_filterMap.mp member
      exact untouched_sublist_classEdit pending (List.mem_reverse.mp found) edit
    · exact untouched_sublist_importEdit _ (Option.mem_toList.mp member)
  · intro name filtered c found other
    obtain ⟨top, bottom, split, first⟩ := (standsIn_of_mem_scan found).place
    rw [finish, LineEdit.lines_applyAll, LineEdit.bottomUp_eq_self plan.descending]
    rw [split] at plan ⊢
    apply LineEdit.infix_foldl plan
    intro e member
    rcases List.mem_append.mp member with member | member
    · obtain ⟨d, drafted, edit⟩ := List.mem_filterMap.mp member
      have drafted := List.mem_reverse.mp drafted
      obtain ⟨c', target, isOf⟩ := Draft.exists_isOf isOf drafted
      have distinct : c' ≠ c := by
        rintro rfl
        have : c'.header.name == some name := by
          simpa [named, filtered] using (List.mem_filter.mp (List.mem_filter.mp target).1).2
        exact other (by simpa using this)
      have range := Draft.edit?_eq_some (pending.standsIn drafted) edit
      rw [isOf.firstLine, isOf.lines] at range
      rcases scan_apart (targets_sublist.subset target) found distinct with before | behind
      · rw [ClassDecl.Before] at before
        rw [range]
        dsimp only
        omega
      · rw [ClassDecl.Before] at behind
        rw [range]
        dsimp only
        omega
    · have := Imports.edit?_above (above c found) (Option.mem_toList.mp member)
      omega

open Dart in
/-- A constructor is replaced after the user accepts, and the other class stays. -/
theorem Request.generate_keeps_untouched_beside :
    let request : Request := { selector := some .constructor, className := some "A" }
    let text : Text := "class A \x7b\n int a;\n A();\n\x7d\nclass B \x7b\n\x7d"
    ∃ g after, (request.generate text).Returns { script := some [.accept] } g after ∧
      ∃ imports drafts,
        (request.reviewed text).Returns { script := some [.accept] } (imports, drafts) after ∧
        (untouched (rewrites imports drafts) 0 text.lines).Sublist g.code.lines ∧
        ∀ name, request.className = some name → ∀ c ∈ scan text, c.header.name ≠ some name →
          c.lines <:+: g.code.lines := by
  intro request text
  obtain ⟨g, after, returned⟩ : ∃ g after,
      (request.generate text).Returns { script := some [.accept] } g after :=
    Run.exists_returns (by decide +kernel)
  exact ⟨g, after, returned, generate_keeps_untouched returned⟩

end ValueClass
