import ValueClass.Proofs.Dart.Declaration
import ValueClass.Proofs.Generate.Segment

/-! # The constructor of a class without one

A run puts it behind the line of the last field, and what stood below that line stands
below the constructor. So it follows a whole declaration just when the declaration of that
field is laid out on one line; a longer one is torn apart.
-/

namespace ValueClass

namespace Dart

namespace Draft

variable {d : Draft}

theorem exists_bodyTexts_append (d : Draft) (written : List Text) (lineNo : Nat)
    (above : List Text) {rest : List Text} (below : rest ≠ []) :
    ∃ texts written', d.bodyTexts written lineNo (above ++ rest) =
      texts ++ d.bodyTexts written' (lineNo + above.length) rest := by
  induction above generalizing lineNo written with
  | nil => exact ⟨[], written, rfl⟩
  | cons line more ih =>
      obtain ⟨texts, written', split⟩ := ih (d.lineTexts written lineNo false line).2 (lineNo + 1)
      have middle : (more ++ rest).isEmpty = false := by simp [below]
      refine ⟨(d.lineTexts written lineNo false line).1 ++ d.insertedAfter lineNo ++ texts,
        written', ?_⟩
      rw [List.cons_append, bodyTexts, middle]
      dsimp only
      rw [split, List.length_cons,
        show lineNo + 1 + more.length = lineNo + (more.length + 1) by omega]
      simp only [List.append_assoc]

/-- What is written for a class has the constructor right behind the line of the last
    field, and below it the lines that stay. -/
theorem inserted_infix_render {header line : Text} {above more rest : List Text}
    (lines : d.decl.lines = header :: (above ++ line :: (more ++ rest))) (below : rest ≠ [])
    (last : d.decl.lastFieldLine? = some (d.decl.firstLine + 1 + above.length))
    (some : d.inserted ≠ [])
    (whole : ∀ l ∈ d.decl.lines, '\n' ∉ l)
    (uncovered : ∀ i, d.decl.firstLine + 1 + above.length ≤ i →
      i ≤ d.decl.firstLine + 1 + above.length + more.length → d.replacementAt? i = none) :
    line :: (d.inserted.lines ++ more) <:+: d.render.lines := by
  generalize place : d.decl.firstLine + 1 + above.length = n at last uncovered
  have elsewhere : ∀ i, i ≠ n → d.insertedAfter i = [] := by
    intro i other
    rw [Draft.insertedAfter_eq last, if_neg other]
  have here : d.insertedAfter n = [d.inserted] := by
    rw [Draft.insertedAfter_eq last, if_pos rfl, Draft.shown, if_neg (by simpa using some)]
  obtain ⟨texts, written, upper⟩ :=
    d.exists_bodyTexts_append [] (d.decl.firstLine + 1) above (List.cons_ne_nil line (more ++ rest))
  have front : d.bodyTexts written n ([] ++ line :: (more ++ rest)) =
      [] ++ line :: (d.insertedAfter n ++ d.bodyTexts written (n + 1) (more ++ rest)) :=
    bodyTexts_inserted (by simp [below])
      (fun i low high => uncovered i low (Nat.le_trans high (Nat.le_add_right _ _)))
      fun i low high => absurd high (Nat.not_lt.mpr low)
  have free : d.bodyTexts written (n + 1) (more ++ rest) =
      more ++ d.bodyTexts written (n + 1 + more.length) rest :=
    bodyTexts_free below fun i low high => ⟨uncovered i (by omega) (by omega),
      elsewhere i (by omega)⟩
  rw [List.nil_append, List.nil_append, here, free, List.singleton_append] at front
  have inside : ∀ l ∈ line :: more, '\n' ∉ l := by
    intro l member
    apply whole l
    rw [lines]
    simp only [List.mem_cons, List.mem_append] at member ⊢
    tauto
  obtain ⟨single, others⟩ := List.forall_mem_cons.mp inside
  rw [render, lines]
  dsimp only
  generalize (if d.headerChanged then d.decl.header.render header else header) = first
  rw [elsewhere _ (by omega), List.nil_append, upper, place, front,
    Text.lines_unlines_flatMap (by simp), List.flatMap_cons, List.flatMap_append, List.flatMap_cons,
    List.flatMap_cons, List.flatMap_append, Text.lines_of_notMem single,
    Text.flatMap_lines_of_notMem others]
  refine ⟨first.lines ++ texts.flatMap Text.lines,
    (d.bodyTexts written (n + 1 + more.length) rest).flatMap Text.lines, ?_⟩
  simp only [List.append_assoc, List.cons_append, List.nil_append]

end Draft

theorem isSome_present?_constructor (c : ClassDecl) :
    (present? c .constructor).isSome = c.hasConstructor := by
  rw [present?, ClassDecl.hasConstructor]
  cases c.ctor with
  | none => rfl
  | some ctor =>
      obtain ⟨text, first, last⟩ := ctor
      cases last <;> rfl

theorem inserted_draftFor {s : Surroundings} {selector : Option MemberKind} {c : ClassDecl}
    (some : (draftFor s selector c).inserted ≠ []) :
    c.hasConstructor = false ∧ (draftFor s selector c).inserted = "\n" ++ constructorText s c := by
  have pending := (draftFor_pending s selector c).1
  rw [flatMap_insertedFor s c (nodup_kindsFor s.style c.header selector), insertedFor] at pending
  rw [pending] at some ⊢
  split at some
  · split at some
    · rename_i listed absent
      rw [if_pos listed, if_pos absent, ← isSome_present?_constructor, absent.2]
      exact ⟨rfl, rfl⟩
    · exact absurd rfl some
  · exact absurd rfl some

end Dart

namespace Request

open Dart

variable {request : Request} {text : Text} {before after : Interview}

/-- A constructor that a run puts into a class stands right behind the line that was taken
    for a field last, above the lines that stood below it. That line ends the declaration
    that starts there just when the declaration takes no other line and nothing follows it. -/
theorem generate_insertsBehind_iff {g : Generated}
    (returned : (request.generate text).Returns before g after) :
    ∃ imports drafts indent, (request.reviewed text).Returns before (imports, drafts) after ∧
      drafts.length = (request.targets text).length ∧
      ∀ d c, (d, c) ∈ drafts.zip (request.targets text) → d.inserted ≠ [] →
        c.hasConstructor = false ∧
          d.inserted = "\n" ++ constructorText (request.surroundings text indent) c ∧
        ∃ above line below, c.FieldsEndAt text above line below ∧
          ∀ more rest, below = more ++ rest →
            (rest ≠ [] → (∀ i, c.firstLine + above.length ≤ i →
              i ≤ c.firstLine + above.length + more.length →
                d.replacementAt? i = none) →
              line :: (d.inserted.lines ++ more) <:+: g.code.lines) ∧
            ∀ behind, Line.Layout 0 (line :: more) behind →
              (Line.EndsDeclaration line ↔ more = [] ∧ behind = []) := by
  obtain ⟨imports, drafts, left, rfl⟩ := generate_returns.mp returned
  obtain ⟨indent, -, size, each⟩ := each_reviewed left
  refine ⟨imports, drafts, indent, left, size, ?_⟩
  intro d c pair some
  obtain ⟨scanned, valid, own, reviewed⟩ := each d c pair
  have same : d.inserted =
      (draftFor (request.surroundings text indent) request.selector c).inserted := by
    rw [reviewed.1]
  obtain ⟨absent, inserted⟩ := inserted_draftFor (same ▸ some)
  obtain ⟨closing, closes⟩ := lastLine_of_isValid valid
  obtain ⟨above, line, below, ends⟩ := exists_fieldsEndAt scanned valid closes
  refine ⟨absent, same.trans inserted, above, line, below, ends, ?_⟩
  rintro more rest rfl
  refine ⟨fun goesOn uncovered => ?_, fun behind => Line.endsDeclaration_iff⟩
  -- the header is above the line, since it is taken for no field
  obtain ⟨header, others, rfl⟩ := List.exists_cons_of_ne_nil (List.length_pos_iff.mp ends.takes.1)
  rw [List.length_cons] at uncovered
  have whole : ∀ l ∈ c.lines, '\n' ∉ l := by
    intro l member
    obtain ⟨upper, lower, split, -⟩ := (standsIn_of_mem_scan scanned).place
    exact Text.notMem_of_mem_lines (t := text) (by rw [split]; simp [member])
  have last : d.decl.lastFieldLine? = Option.some (d.decl.firstLine + 1 + others.length) := by
    rw [ClassDecl.lastFieldLine?, own.fields, own.firstLine, Nat.add_assoc, Nat.add_comm 1]
    exact ends.last
  have shown : line :: (d.inserted.lines ++ more) <:+: d.render.lines := by
    refine Draft.inserted_infix_render (own.lines.trans ends.lines) goesOn last some
      (own.lines ▸ whole) ?_
    rw [own.firstLine]
    exact fun i low high => uncovered i (by omega) (by omega)
  exact shown.trans (render_infix_finish left pair (by simp [Draft.hasChanges, some]))

/-- A list literal over several lines is torn apart; a declaration on one line stays whole. -/
theorem generate_insertsBehind_iff_literal :
    let request : Request := { selector := some .constructor }
    let literal : Text := "  List<int> xs = ["
    let items : List Text := ["    1,", "  ];"]
    let single : Text := "  final int x;"
    let first : List Text := "class A \x7b" :: literal :: (items ++ ["\x7d".toList])
    let second : List Text := ["class B \x7b", single, "\x7d"]
    let text : Text := Text.unlines (first ++ second)
    let ctor (name field : Text) : List Text :=
      [[], "  " ++ name ++ "(\x7b", "    required this." ++ field ++ ",", "  \x7d);"]
    ∃ g after, (request.generate text).Returns {} g after ∧
      (literal :: (ctor "A" "xs" ++ items) <:+: g.code.lines ∧ ¬ Line.EndsDeclaration literal) ∧
      (single :: ctor "B" "x" <:+: g.code.lines ∧ Line.EndsDeclaration single) := by
  intro request literal items single first second text ctor
  obtain ⟨found, shown, placed, kept⟩ : request.targets text ≠ [] ∧
      ((request.pending text "  ").2.zip (request.targets text)).map
        (fun p => (p.1.inserted.lines, p.2.lines)) =
        [(ctor "A" "xs", first), (ctor "B" "x", second)] ∧
      ((request.pending text "  ").2.zip (request.targets text)).map
        (fun p => (p.2.firstLine, p.2.lastFieldLine?)) =
        [(1, some 2), (6, some 7)] ∧
      ∀ p ∈ (request.pending text "  ").2.zip (request.targets text), p.1.replacements = [] := by
    decide +kernel
  have style : request.style.indent? = .ok "  ".toList := rfl
  have returned := returns_written found style
  obtain ⟨imports, drafts, _, left, -, each⟩ := generate_insertsBehind_iff returned
  obtain ⟨rfl, rfl⟩ := reviewed_of_silent left style
  generalize (request.pending text "  ").2.zip (request.targets text) =
    zipped at each shown placed kept
  have free : ∀ p ∈ zipped, ∀ i, p.1.replacementAt? i = none := by
    intro p member i
    rw [Draft.replacementAt?, kept p member]
    rfl
  obtain ⟨⟨d, c⟩, more, rfl, one, others⟩ := List.map_eq_cons_iff.mp shown
  obtain ⟨⟨e, b⟩, none, rfl, two, last⟩ := List.map_eq_cons_iff.mp others
  obtain rfl := List.map_eq_nil_iff.mp last
  simp only [Prod.mk.injEq] at one two
  simp only [List.map_cons, List.map_nil, List.cons.injEq, Prod.mk.injEq, and_true] at placed
  have filled : ∀ {d : Draft} {name field : Text}, d.inserted.lines = ctor name field →
      d.inserted ≠ [] := by
    intro d name field lines none
    rw [none] at lines
    cases lines
  refine ⟨_, _, returned, ?_, ?_⟩
  · have lines : c.lines = ["class A \x7b".toList] ++ literal :: (items ++ ["\x7d".toList]) := one.2
    obtain ⟨-, -, above, line, below, ends, whole⟩ := each d c (by simp) (filled one.1)
    obtain ⟨rfl, rfl, rfl⟩ := ends.unique lines (by rw [placed.1.1, placed.1.2]; rfl)
    obtain ⟨shown, ending⟩ := whole items ["\x7d".toList] rfl
    rw [one.1] at shown
    refine ⟨shown (by simp) fun i _ _ => free (d, c) (by simp) i, ?_⟩
    have layout : Line.Layout 0 (literal :: items) [] :=
      @Line.Layout.goesOn 0 1 _ _ _ (by decide +kernel)
        (@Line.Layout.goesOn 1 1 _ _ _ (by decide +kernel)
        (@Line.Layout.ends _ _ "]" _ (by decide +kernel) (by decide +kernel)))
    rw [ending [] layout]
    simp [items]
  · have lines : b.lines = ["class B \x7b".toList] ++ single :: ([] ++ ["\x7d".toList]) := two.2
    obtain ⟨-, -, above, line, below, ends, whole⟩ := each e b (by simp) (filled two.1)
    obtain ⟨rfl, rfl, rfl⟩ := ends.unique lines (by rw [placed.2.1, placed.2.2]; rfl)
    obtain ⟨shown, ending⟩ := whole [] ["\x7d".toList] rfl
    rw [two.1, List.append_nil] at shown
    refine ⟨shown (by simp) fun i _ _ => free (e, b) (by simp) i, ?_⟩
    have layout : Line.Layout 0 [single] [] :=
      @Line.Layout.ends _ _ "final int x" _ (by decide +kernel) (by decide +kernel)
    exact (ending [] layout).mpr ⟨rfl, rfl⟩

end Request

end ValueClass
