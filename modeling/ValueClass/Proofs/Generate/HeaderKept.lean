import ValueClass.Proofs.Dart.OneLine
import ValueClass.Proofs.Generate.Segment

/-! # The header in the edited buffer

A header that is written anew is one line of the buffer, in the place of the old one. It
is the old line with the clause put in just when the old line is read whole.
-/

namespace ValueClass

namespace Dart

theorem Draft.header_useEquatable {d : Draft} (unchanged : d.headerChanged = false)
    (changed : d.useEquatable.headerChanged) :
    d.useEquatable.decl.header = d.decl.header.equatable := by
  rw [useEquatable] at changed ⊢
  split at changed
  · rw [unchanged] at changed
    cases changed
  · rename_i other
    rw [if_neg other, Header.equatable]
    cases super : d.decl.header.superclass with
    | none =>
        dsimp only
        rw [setSuperclass, if_neg (by simp [super])]
    | some parent =>
        have unmixed : d.decl.header.mixins.contains "EquatableMixin".toList = false := by
          rw [Header.usesEquatable, Bool.not_eq_true, Bool.or_eq_false_iff] at other
          exact other.2
        dsimp only
        rw [addMixin, unmixed, if_neg Bool.false_ne_true, ← super]

theorem header_of_draftFor {s : Surroundings} {selector : Option MemberKind} {c : ClassDecl}
    (changed : (draftFor s selector c).headerChanged) :
    (draftFor s selector c).decl.header = c.header.equatable := by
  have start : (headerFor { decl := c } (kindsFor s.style c.header selector)).headerChanged :=
    changed
  show (headerFor { decl := c } (kindsFor s.style c.header selector)).decl.header =
      c.header.equatable
  rw [headerFor] at start ⊢
  split at start
  · rename_i listed
    rw [if_pos listed]
    exact Draft.header_useEquatable rfl start
  · cases start

theorem Draft.lines_render {d : Draft} {line : Text} {body : List Text}
    (lines : d.decl.lines = line :: body) (changed : d.headerChanged)
    (whole : '\n' ∉ d.decl.header.render line) :
    ∃ rest, d.render.lines = d.decl.header.render line :: rest := by
  rw [render, lines]
  dsimp only
  rw [if_pos changed, Text.unlines, ← Text.unlines, Text.lines_unlines_flatMap (by simp),
    List.flatMap_cons, Text.lines_of_notMem whole]
  exact ⟨_, rfl⟩

end Dart

open Dart in
/-- A header that a run writes anew is a line of the buffer. It is the old line with the
    clause put in, but for blanks, just when the old line is read whole: when behind the
    name there is nothing but the clauses and the brace. -/
theorem Request.generate_keepsHeader_iff {request : Request} {text : Text}
    {before after : Interview} {g : Generated}
    (returned : (request.generate text).Returns before g after) :
    ∃ imports drafts, (request.reviewed text).Returns before (imports, drafts) after ∧
      drafts.length = (request.targets text).length ∧
      ∀ d c, (d, c) ∈ drafts.zip (request.targets text) → d.headerChanged →
        ∃ line body newLine rest, c.lines = line :: body ∧ d.render.lines = newLine :: rest ∧
          d.render.lines <:+: g.code.lines ∧
          ((∃ front back, line.ink = front ++ back ∧
            newLine.ink = front ++ c.header.added.ink ++ back) ↔
            Header.IsWhole line) := by
  obtain ⟨imports, drafts, left, rfl⟩ := generate_returns.mp returned
  obtain ⟨indent, -, size, each⟩ := each_reviewed left
  refine ⟨imports, drafts, left, size, ?_⟩
  intro d c pair changed
  obtain ⟨scanned, valid, own, reviewed⟩ := each d c pair
  obtain ⟨line, body, lines, opens, header⟩ := header_of_mem_scan scanned
  have whole : '\n' ∉ line := by
    obtain ⟨above, below, split, -⟩ := (standsIn_of_mem_scan scanned).place
    exact Text.notMem_of_mem_lines (t := text) (by rw [split, lines]; simp)
  have written : d.decl.header = (Header.parse line).equatable := by
    have review := reviewed.1
    rw [review] at changed ⊢
    rw [← header]
    exact header_of_draftFor changed
  obtain ⟨rest, shown⟩ := Draft.lines_render (own.lines.trans lines) changed
    (by rw [written]; exact (Header.onOneLine_parse whole).equatable.render whole)
  refine ⟨line, body, _, rest, lines, shown, ?_, ?_⟩
  · exact render_infix_finish left pair (by simp [Draft.hasChanges, changed])
  · rw [written, header]
    exact Header.inserted_iff opens

open Dart in
/-- A comment behind the brace is lost, and the brace with it. -/
theorem Request.generate_keepsHeader_iff_comment :
    let request : Request := { selector := some .props }
    let text : Text :=
      "class A \x7b // note\n  final int x;\n\x7d\nclass B extends C \x7b\n  final int y;\n\x7d\n"
    let commented : Text := "class A \x7b // note"
    let bare : Text := "class B extends C \x7b"
    let cut : Text := "class A extends Equatable"
    let kept : Text := "class B extends C with EquatableMixin \x7b"
    ∃ g after, (request.generate text).Returns {} g after ∧
      (commented ∈ text.lines ∧ cut ∈ g.code.lines ∧ ¬ Header.IsWhole commented ∧
        ¬ ∃ front back, commented.ink = front ++ back ∧
          cut.ink = front ++ "extendsEquatable".toList ++ back) ∧
      (bare ∈ text.lines ∧ kept ∈ g.code.lines ∧ Header.IsWhole bare ∧
        ∃ front back, bare.ink = front ++ back ∧
          kept.ink = front ++ "withEquatableMixin".toList ++ back) := by
  intro request text commented bare cut kept
  obtain ⟨found, targets, shown, stand, long⟩ : request.targets text ≠ [] ∧
      (request.targets text).map (fun c => (c.lines.head?, c.header.added.ink)) =
        [(some commented, "extendsEquatable".toList), (some bare, "withEquatableMixin".toList)] ∧
      ((request.reviewed text).result {}).1.toOption.map (fun written =>
        written.2.map fun d => (d.headerChanged, d.render.lines.head?)) =
          some [(true, some cut), (true, some kept)] ∧
      (commented ∈ text.lines ∧ bare ∈ text.lines) ∧
      cut.ink.length < commented.ink.length + "extendsEquatable".length := by
    decide +kernel
  have returned := returns_written found (show request.style.indent? = .ok "  ".toList from rfl)
  obtain ⟨imports, drafts, left, -, each⟩ := generate_keepsHeader_iff returned
  -- what the theorem says of a header whose old and new line are known
  have known {d : Draft} {c : ClassDecl} {old new added : Text}
      (pair : (d, c) ∈ drafts.zip (request.targets text))
      (written : (d.headerChanged, d.render.lines.head?) = (true, some new))
      (read : (c.lines.head?, c.header.added.ink) = (some old, added)) :
      new ∈ (request.written text "  ").code.lines ∧
        ((∃ front back, old.ink = front ++ back ∧ new.ink = front ++ added ++ back) ↔
          Header.IsWhole old) := by
    obtain ⟨changed, first⟩ := Prod.mk.inj written
    obtain ⟨line, body, newLine, rest, lines, rendered, inside, iff⟩ := each d c pair changed
    obtain ⟨opening, clause⟩ := Prod.mk.inj read
    rw [lines, List.head?_cons, Option.some.injEq] at opening
    rw [rendered, List.head?_cons, Option.some.injEq] at first
    subst opening first
    rw [clause] at iff
    exact ⟨inside.subset (by rw [rendered]; exact List.mem_cons_self), iff⟩
  rw [show (request.reviewed text).result {} = _ from left] at shown
  have written := Option.some.inj shown
  generalize request.targets text = classes at targets known
  obtain ⟨a, classes, rfl, readA, targets⟩ := List.map_eq_cons_iff.mp targets
  obtain ⟨b, classes, rfl, readB, -⟩ := List.map_eq_cons_iff.mp targets
  obtain ⟨d, drafts, rfl, writtenA, written⟩ := List.map_eq_cons_iff.mp written
  obtain ⟨e, drafts, rfl, writtenB, -⟩ := List.map_eq_cons_iff.mp written
  obtain ⟨cutIn, wholeA⟩ := known (by simp) writtenA readA
  obtain ⟨keptIn, wholeB⟩ := known (by simp) writtenB readB
  have lost : ¬ ∃ front back, commented.ink = front ++ back ∧
      cut.ink = front ++ "extendsEquatable".toList ++ back := by
    rintro ⟨front, back, old, new⟩
    have total : cut.ink.length = commented.ink.length + "extendsEquatable".toList.length := by
      rw [old, new]
      simp only [List.length_append]
      omega
    exact absurd total (Nat.ne_of_lt long)
  have whole : Header.IsWhole bare :=
    ⟨[], ["B", "extends", "C"], "B", [], ["C"], [], [], by decide +kernel, by decide,
      by decide +kernel, by decide +kernel, .inr (.inl rfl), .inr (.inl rfl)⟩
  exact ⟨_, _, returned, ⟨stand.1, cutIn, mt wholeA.mpr lost, lost⟩,
    stand.2, keptIn, whole, wholeB.mpr whole⟩

end ValueClass
