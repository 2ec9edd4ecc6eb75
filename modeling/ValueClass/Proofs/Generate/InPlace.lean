import ValueClass.Proofs.Edit.InPlace
import ValueClass.Proofs.Generate.NewConstructor
import ValueClass.Proofs.Member.Rewritten

/-! # Every change in the edited buffer

A run writes every pending change of a class once and in its place, unless the lines of
a member that it replaces lie in those of others, or a member that it replaces reaches the
last line of a class that gets more members.
-/

namespace ValueClass

/-- A class has every change that is left after the review in its place just when there is
    room for all of them. -/
theorem Dart.Draft.IsReviewOf.inPlace_iff {s : Surroundings} {selector : Option MemberKind}
    {d : Draft} {c : ClassDecl} (reviewed : d.IsReviewOf (draftFor s selector c)) (own : d.IsOf c)
    {text : Text} (scanned : c ∈ scan text) (valid : c.isValid)
    (styled : s.style.indent? = .ok s.indent) :
    ∃ lastField closing, c.lastFieldLine? = some lastField ∧ c.lastLine = some closing ∧
      c.firstLine < lastField ∧
      lastField < closing ∧ c.firstLine + c.lines.length = closing + 1 ∧
      (d.InPlace lastField closing ↔ d.HasRoom closing) := by
  obtain ⟨closing, closes⟩ := lastLine_of_isValid valid
  obtain ⟨above, line, below, ends⟩ := exists_fieldsEndAt scanned valid closes
  have ending := (standsIn_of_mem_scan scanned).ending closing closes
  have size := congrArg List.length ends.lines
  rw [List.length_append, List.length_cons] at size
  have inside := List.length_pos_iff.mpr ends.goesOn
  have low := ends.takes.1
  have distinct : (d.replacements.map (·.text)).Nodup :=
    (reviewed.2.map _).nodup
      (nodup_replacements scanned (isBlankText_of_indent? styled) (notMem_of_indent? styled) _)
  refine ⟨_, closing, ends.last, closes, by omega, by omega, ending.symm, ?_⟩
  refine Draft.inPlace_iff ?_ ?_ ?_ ?_ distinct
  · rw [ClassDecl.lastFieldLine?, own.fields]
    exact ends.last
  · rw [own.firstLine]
    omega
  · omega
  · rw [own.firstLine, own.lines]
    omega

namespace Request

open Dart

variable {request : Request} {text : Text} {before after : Interview}

/-- What a run writes for a class is in the edited buffer. It has every change that is left
    after the review once and in its place just when each replacement has a line to itself,
    and the last line is replaced only where no members go before it. -/
theorem generate_inPlace_iff {g : Generated}
    (returned : (request.generate text).Returns before g after) :
    ∃ imports drafts indent, (request.reviewed text).Returns before (imports, drafts) after ∧
      drafts.length = (request.targets text).length ∧
      ∀ d c, (d, c) ∈ drafts.zip (request.targets text) →
        d.IsReviewOf (draftFor (request.surroundings text indent) request.selector c) ∧
        (d.hasChanges → d.render.lines <:+: g.code.lines) ∧
        ∃ lastField closing, c.lastFieldLine? = some lastField ∧ c.lastLine = some closing ∧
          c.firstLine < lastField ∧ lastField < closing ∧
            (d.InPlace lastField closing ↔ d.HasRoom closing) := by
  obtain ⟨imports, drafts, left, rfl⟩ := generate_returns.mp returned
  obtain ⟨indent, styled, size, each⟩ := each_reviewed left
  refine ⟨imports, drafts, indent, left, size, ?_⟩
  intro d c pair
  obtain ⟨scanned, valid, own, reviewed⟩ := each d c pair
  obtain ⟨lastField, closing, last, closes, low, high, -, inPlace⟩ :=
    reviewed.inPlace_iff own scanned valid styled
  exact ⟨reviewed, render_infix_finish left pair, lastField, closing, last, closes, low,
    high, inPlace⟩

/-- A comment behind its semicolon makes a member reach over the next one, whose text is
    lost; where a constructor ends on the last line, every other member is lost. -/
theorem generate_inPlace_iff_comment :
    let style : Style :=
      { writesCopyWith := false, writesToMap := false,
        writesFromMap := false, writesFromJson := false,
        writesEquality := false, writesHashCode := false }
    let request : Request := { style }
    let text : Text := Text.unlines
      ["class A \x7b", "  final int x;", "  String toJson() => 'a'; // text",
        "  String toString() => 'b';", "\x7d",
        "class B \x7b", "  final int x;", "  B(this.x); \x7d",
        "class C \x7b", "  final int x;", "  String toJson() => 'a';",
          "  String toString() => 'b';", "\x7d"]
    ∃ g after, (request.generate text).Returns {} g after ∧
      ∃ imports a b c, (request.reviewed text).Returns {} (imports, [a, b, c]) after ∧
        ¬ a.InPlace 2 5 ∧ ¬ b.InPlace 7 8 ∧ c.InPlace 10 13 := by
  intro style request text
  obtain ⟨found, rooms⟩ : request.targets text ≠ [] ∧
      ((request.pending text "  ").2.zip (request.targets text)).map
          (fun p => (p.2.lastFieldLine?, p.2.lastLine,
            decide (p.1.HasRoom (p.2.lastLine.getD 0)))) =
        [(some 2, some 5, false), (some 7, some 8, false), (some 10, some 13, true)] := by
    decide +kernel
  have style : request.style.indent? = .ok "  ".toList := rfl
  have returned := returns_written found style
  obtain ⟨imports, drafts, _, left, size, each⟩ := generate_inPlace_iff returned
  obtain ⟨rfl, rfl⟩ := reviewed_of_silent left style
  generalize pairs : (request.pending text "  ").2.zip (request.targets text) = zipped at each rooms
  have verdict : ∀ d c lastField closing room, (d, c) ∈ zipped →
      (c.lastFieldLine?, c.lastLine, decide (d.HasRoom (c.lastLine.getD 0))) =
        (some lastField, some closing, room) →
        (d.InPlace lastField closing ↔ room) := by
    intro d c lastField closing room member shown
    obtain ⟨-, -, lastField', closing', last, closes, -, -, inPlace⟩ := each d c member
    simp only [last, closes, Option.getD_some, Prod.mk.injEq, Option.some.injEq] at shown
    obtain ⟨rfl, rfl, rfl⟩ := shown
    rw [inPlace, decide_eq_true_iff]
  have drafted : (request.pending text "  ").2 = zipped.map (·.1) := by
    rw [← pairs, List.map_fst_zip (Nat.le_of_eq size)]
  obtain ⟨⟨a, _⟩, _, rfl, first, rest⟩ := List.map_eq_cons_iff.mp rooms
  obtain ⟨⟨b, _⟩, _, rfl, second, rest⟩ := List.map_eq_cons_iff.mp rest
  obtain ⟨⟨c, _⟩, _, rfl, third, rest⟩ := List.map_eq_cons_iff.mp rest
  obtain rfl := List.map_eq_nil_iff.mp rest
  rw [drafted] at left
  refine ⟨_, _, returned, _, a, b, c, left, ?_, ?_, ?_⟩
  · rw [verdict _ _ _ _ _ (by simp) first]
    exact Bool.false_ne_true
  · rw [verdict _ _ _ _ _ (by simp) second]
    exact Bool.false_ne_true
  · rw [verdict _ _ _ _ _ (by simp) third]

end Request

end ValueClass
