import ValueClass.Proofs.Command.Effect
import ValueClass.Proofs.Generate.Uncovered
import ValueClass.Proofs.Workspace.Utf8

/-! # The rows of a file that members are written into

The file is read with line feeds as its line ends and written as the edited text has them. So a row
that no edit covers is there afterwards, but with a line feed where it had a carriage return.
-/

namespace ValueClass

namespace Command

open FileTree (Edited)

variable {outside : Outside} {args : List Text} {t : Terminal} {file : Text}
  {member : Option MemberKind}
  {className : Option Text} {options : CommonOptions} {g : Generated}

/-- What edits make of the lines above a line. -/
def madeAbove (edits : List LineEdit) (lines : List Text) (index : Nat) : Text :=
  (LineEdit.spliceFrom edits 0 (lines.take index)).flatMap fun line => line ++ ['\n']

/-- What edits make of the lines below a line. -/
def madeBelow (edits : List LineEdit) (lines : List Text) (index : Nat) : Text :=
  Text.unlines (LineEdit.spliceFrom edits (index + 1) (lines.drop (index + 1)))

theorem code_of_row {request : Request} {raw row : Text} {above below : List Text}
    {before after : Interview}
    (returned : (request.generate (Utf8.normalizeLineEnds raw)).Returns before g after)
    (cut : Utf8.rows raw = above ++ row :: below)
    (uncovered : g.edits.any (·.covers above.length) = false) :
    g.code = madeAbove g.edits (Utf8.normalizeLineEnds raw).lines above.length ++
      Utf8.normalizeLineEnds row ++
      madeBelow g.edits (Utf8.normalizeLineEnds raw).lines above.length := by
  obtain ⟨top, line, bottom, place, higher, -, read⟩ := Utf8.line_of_row cut
  rw [← higher] at uncovered ⊢
  rw [madeAbove, madeBelow, read, Request.generate_uncovered returned place uncovered, place,
    List.take_left, List.append_cons top, List.drop_left' (by simp)]

theorem readText_of_encode {tree : FileTree} {p : Path} {raw text : Text}
    (stands : tree.stat p = .ok (.file (Utf8.encode raw))) (read : tree.readText p = .ok text) :
    text = Utf8.normalizeLineEnds raw := by
  obtain ⟨bytes, found, here, decoded, rfl⟩ := FileTree.file_of_readText read
  obtain rfl : Utf8.encode raw = bytes := by
    rw [stands] at here
    cases here
    rfl
  rw [Utf8.decode_encode] at decoded
  cases decoded
  rfl

/-- When members are written into a file, each row of it that no edit covers is where it was,
    between what the edits make of the rest, and is the same byte for byte just when no
    carriage return is in it. The console may end the command before anything is written, and
    then every file is as it was. -/
theorem runLine_rows (outside : Outside) {raw : Text}
    (base : t.tree.node? t.tree.cwd = some .directory)
    (parsed : ofArgs args = .ok (.generate file member className options))
    (stands : t.tree.stat (.ofText file) = .ok (.file (Utf8.encode raw)))
    (generated : generation? t file member className options = some g) (edits : g.edits ≠ [])
    (wet : options.dryRun = false)
    (wrote : t.console.ShowsAll ∨ (runLine outside args t).2.tree ≠ t.tree) :
    let after := (runLine outside args t).2.tree
    ∀ above row below, Utf8.rows raw = above ++ row :: below →
      g.edits.any (·.covers above.length) = false →
      let front := Utf8.encode (madeAbove g.edits (Utf8.normalizeLineEnds raw).lines above.length)
      let back := Utf8.encode (madeBelow g.edits (Utf8.normalizeLineEnds raw).lines above.length)
      Utf8.encode raw = Utf8.encode above.flatten ++ Utf8.encode row ++ Utf8.encode below.flatten ∧
        after.read (.ofText file) =
          .ok (front ++ Utf8.encode (Utf8.normalizeLineEnds row) ++ back) ∧
        (after.read (.ofText file) = .ok (front ++ Utf8.encode row ++ back) ↔ '\r' ∉ row) := by
  intro after above row below cut uncovered front back
  obtain ⟨result, last, run, generates⟩ := runGenerate_generates file member className options base
  have same : after = last.tree := (runLine_of_run parsed run).2
  have written : after.read (.ofText file) = .ok (Utf8.encode g.code) := by
    rcases generates.written g generated edits wet with edited | ⟨-, kept, refuses⟩
    · exact same ▸ edited.read
    · exact absurd (same.trans kept) (wrote.resolve_left refuses)
  obtain ⟨text, request, left, read, returned⟩ := returns_of_generation generated
  obtain rfl := readText_of_encode stands read
  rw [code_of_row returned cut uncovered, Utf8.encode_append, Utf8.encode_append] at written
  refine ⟨?_, written, ?_⟩
  · conv_lhs => rw [← Utf8.flatten_rows raw, cut]
    simp
  · rw [written, Except.ok.injEq, List.append_cancel_right_eq, List.append_cancel_left_eq,
      Utf8.encode_inj, Utf8.normalizeLineEnds_eq_iff]

/-- The carriage return goes from a comment above a class that a member is written into. -/
theorem runLine_rows_comment :
    let raw : Text := "// top\r\nclass A \x7b\r\n  final int x;\r\n\x7d\r\n"
    let tree : FileTree :=
      { cwd := ["w"], nodes := [(["w"], .directory), (["w", "a.dart"], .file (Utf8.encode raw))] }
    let args : List Text := ["generate", "a.dart", "--member", "copyWith", "--yes"]
    let after := (runLine {} args { tree }).2.tree
    tree.node? tree.cwd = some .directory ∧ tree.stat (.ofText "a.dart") = .ok
      (.file (Utf8.encode raw)) ∧
      ∃ g front back, generation? { tree } "a.dart" (some .copyWith) none { assumeYes :=
        true } = some g ∧
        g.edits ≠ [] ∧ g.edits.any (·.covers 0) = false ∧
        after.read (.ofText "a.dart") = .ok (front ++ Utf8.encode "// top\n" ++ back) ∧
        after.read (.ofText "a.dart") ≠ .ok (front ++ Utf8.encode "// top\r\n" ++ back) := by
  intro raw tree args after
  have base : tree.node? tree.cwd = some .directory := rfl
  obtain ⟨stands, parsed, planned, cut⟩ :
      tree.stat (.ofText "a.dart") = .ok (.file (Utf8.encode raw)) ∧
      ofArgs args = .ok (.generate "a.dart" (some .copyWith) none { assumeYes := true }) ∧
      (generation? { tree } "a.dart" (some .copyWith) none { assumeYes := true }).map
        (fun g => (g.edits.isEmpty, g.edits.any (·.covers 0))) = some (false, false) ∧
      Utf8.rows raw = [] ++ "// top\r\n".toList ::
        ["class A \x7b\r\n".toList, "  final int x;\r\n".toList, "\x7d\r\n".toList, []] := by
    decide +kernel
  obtain ⟨g, generated, found⟩ := Option.map_eq_some_iff.mp planned
  obtain ⟨some, uncovered⟩ := Prod.mk.inj found
  have edits : g.edits ≠ [] := by simpa using some
  obtain ⟨-, read, same⟩ :=
    runLine_rows {} base parsed stands generated edits rfl (.inl fun _ => rfl) _ _ _ cut uncovered
  exact ⟨base, stands, g, _, _, generated, edits, uncovered, read,
    fun kept => same.mp kept (by decide)⟩

end Command

end ValueClass
