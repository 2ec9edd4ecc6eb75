import ValueClass.Proofs.Generate.InPlace
import ValueClass.Proofs.Member.Call
import ValueClass.Proofs.Member.Taken

/-! # Arguments by position in the edited buffer

`copyWith` and `fromMap` as they are written, beside the constructor that stands in the
buffer: the one that was read, the one that takes its place, or a new one. What the
members pass by position is what the constructor takes by position only under conditions
on its parameters.
-/

namespace ValueClass

namespace Dart

/-! ## Texts in the edited class -/

/-- Some lines of a class, between its header and its last line. -/
theorem ClassDecl.StandsIn.split_linesFrom {buffer : List Text} {c : ClassDecl}
    (h : c.StandsIn buffer) {first last : Nat} (low : c.firstLine < first) (order : first ≤ last)
    (within : last + 1 < c.firstLine + c.lines.length) :
    ∃ header above rest, c.lines = header :: (above ++ linesFrom buffer first last ++ rest) ∧
      first = c.firstLine + 1 + above.length ∧
        last + 1 = first + (linesFrom buffer first last).length ∧ rest ≠ [] := by
  obtain ⟨header, body, lines, -⟩ := h.header
  rw [lines, List.length_cons] at within
  obtain ⟨start, rfl⟩ : ∃ start, first = c.firstLine + 1 + start :=
    ⟨first - c.firstLine - 1, by omega⟩
  obtain ⟨stop, rfl⟩ : ∃ stop, last = c.firstLine + stop := ⟨last - c.firstLine, by omega⟩
  have here : linesFrom buffer (c.firstLine + 1 + start) (c.firstLine + stop) =
      (body.take stop).drop start := h.linesFrom_eq lines (by omega)
  refine ⟨header, body.take start, body.drop stop, ?_, ?_, ?_, ?_⟩
  · rw [lines, here]
    conv_lhs => rw [← List.take_append_drop stop body,
      ← List.take_append_drop start (body.take stop), List.take_take, Nat.min_eq_left (by omega)]
  · rw [List.length_take]
    omega
  · rw [here, List.length_drop, List.length_take]
    omega
  · rw [← List.length_pos_iff, List.length_drop]
    omega

namespace Draft

variable {d : Draft}

theorem free_infix_render {header : Text} {above free rest : List Text}
    (lines : d.decl.lines = header :: (above ++ free ++ rest)) (below : rest ≠ [])
    (nothing : d.inserted = [])
    (whole : ∀ line ∈ free, '\n' ∉ line)
    (uncovered : ∀ i, d.decl.firstLine + 1 + above.length ≤ i →
      i < d.decl.firstLine + 1 + above.length + free.length →
      d.replacementAt? i = none) : free <:+: d.render.lines := by
  obtain ⟨texts, written, upper⟩ :=
    d.exists_bodyTexts_append [] (d.decl.firstLine + 1) above
      (show free ++ rest ≠ [] by simp [below])
  have stays := @bodyTexts_free d written _ _ _ below fun i low high =>
    ⟨uncovered i low high, insertedAfter_eq_nil nothing i⟩
  rw [render, lines]
  dsimp only
  rw [insertedAfter_eq_nil nothing, List.nil_append, List.append_assoc, upper, stays,
    Text.lines_unlines_flatMap (by simp), List.flatMap_cons, List.flatMap_append,
    List.flatMap_append, Text.flatMap_lines_of_notMem whole, ← List.append_assoc,
    ← List.append_assoc]
  exact List.infix_append _ _ _

/-- A draft writes a member: in the place of the old one, or among those that it adds. -/
def Writes (d : Draft) (added : List (MemberKind × Text)) (kind : MemberKind) (t : Text) : Prop :=
  (kind, t) ∈ added ∨ ∃ r ∈ d.replacements, r.name = kind.label ∧ r.text = t

theorem appended_ne_nil {added : List (MemberKind × Text)}
    (appended : d.appended = added.flatMap fun m => '\n' :: m.2) {m : MemberKind × Text}
    (member : m ∈ added) : d.appended ≠ [] := by
  obtain ⟨before, after, rfl⟩ := List.append_of_mem member
  simp [appended]

theorem Writes.hasChanges {added : List (MemberKind × Text)}
    (appended : d.appended = added.flatMap fun m => '\n' :: m.2) {kind : MemberKind} {t : Text}
    (writes : d.Writes added kind t) : d.hasChanges := by
  rcases writes with member | ⟨r, member, -⟩
  · simp [Draft.hasChanges, appended_ne_nil appended member]
  · simp [Draft.hasChanges, List.ne_nil_of_mem member]

end Draft

/-- The members that are added to a class, with their texts. -/
def addedFor (s : Surroundings) (c : ClassDecl) (kinds : List MemberKind) :
    List (MemberKind × Text) :=
  (kinds.filter fun kind => kind ≠ .constructor ∧ present? c kind = none).map fun kind =>
    (kind, Text.indentBlock s.indent (methodText s c kind))

theorem flatMap_appendedFor (s : Surroundings) (c : ClassDecl) (kinds : List MemberKind) :
    kinds.flatMap (appendedFor s c) = (addedFor s c kinds).flatMap fun m => '\n' :: m.2 := by
  induction kinds with
  | nil => rfl
  | cons kind rest ih =>
      rw [List.flatMap_cons, ih, appendedFor, addedFor, addedFor, List.filter_cons]
      split_ifs <;> first | rfl | simp_all

section Reviewed

variable {s : Surroundings} {selector : Option MemberKind} {c : ClassDecl} {d : Draft}
  (left : d.IsReviewOf (draftFor s selector c))

include left

theorem Draft.IsReviewOf.appended_eq :
    d.appended = (addedFor s c (kindsFor s.style c.header selector)).flatMap fun m =>
      '\n' :: m.2 := by
  rw [← flatMap_appendedFor, left.1]
  exact (draftFor_pending s selector c).2.1

theorem Draft.IsReviewOf.eq_constructorText {u : Text} (writes : d.WritesConstructor u) :
    u = constructorText s c := by
  rcases writes with inserted | ⟨r, member, name, rfl⟩
  · have same : (draftFor s selector c).inserted = "\n".toList ++ u := by rw [← inserted, left.1]
    have own := (inserted_draftFor (by rw [same]; simp)).2
    rw [same] at own
    exact (List.cons.inj own).2
  · have pending := left.2.subset member
    rw [(draftFor_pending s selector c).2.2] at pending
    obtain ⟨kind, -, found⟩ := List.mem_filterMap.mp pending
    obtain ⟨-, label, text⟩ := replacementFor?_eq_some found
    obtain rfl : kind = .constructor := label_injective (label.symm.trans name)
    exact text

theorem Draft.IsReviewOf.eq_methodText {text : Text} (scanned : c ∈ scan text) (valid : c.isValid)
    (noFeed : '\n' ∉ s.indent) {kind : MemberKind} (calls : kind = .copyWith ∨ kind = .fromMap)
    {t : Text} (writes : d.Writes (addedFor s c (kindsFor s.style c.header selector)) kind t) :
    t = Text.indentBlock s.indent (methodText s c kind) := by
  rcases writes with added | ⟨r, member, name, rfl⟩
  · obtain ⟨own, -, same⟩ := List.mem_map.mp added
    cases same
    rfl
  · have pending := left.2.subset member
    rw [(draftFor_pending s selector c).2.2] at pending
    obtain ⟨own, -, found⟩ := List.mem_filterMap.mp pending
    obtain ⟨-, label, text⟩ := replacementFor?_eq_some found
    obtain rfl : own = kind := label_injective (label.symm.trans name)
    exact text.trans (calls_of_written scanned valid noFeed calls).1

end Reviewed

namespace Draft

variable {d : Draft} {lastField closing : Nat} (inPlace : d.InPlace lastField closing)
  (low : d.decl.firstLine < lastField) (high : lastField < closing)
  (size : d.decl.firstLine + d.decl.lines.length = closing + 1)

include inPlace low high size

theorem Writes.lines_infix {added : List (MemberKind × Text)}
    (appended : d.appended = added.flatMap fun m => '\n' :: m.2) {kind : MemberKind} {t : Text}
    (writes : d.Writes added kind t) : t.lines <:+: d.render.lines := by
  rcases writes with member | ⟨r, member, -, rfl⟩
  · have lines : d.appended.lines = [[]] ++ added.flatMap fun m => m.2.lines := by
      rw [appended]
      exact Text.lines_append_flatMap [] (fun m : MemberKind × Text => m.2) added
    have inside : t.lines <:+: d.appended.lines := by
      obtain ⟨before, after, rfl⟩ := List.append_of_mem member
      rw [lines, List.flatMap_append, List.flatMap_cons, ← List.append_assoc, ← List.append_assoc]
      exact List.infix_append _ _ _
    have filled := appended_ne_nil appended member
    exact inside.trans (inPlace.lines_infix low high size (.inl (by simp [shown, filled])))
  · exact inPlace.lines_infix low high size (.inr (.inr ⟨r, member, rfl⟩))

theorem WritesConstructor.lines_infix {u : Text} (writes : d.WritesConstructor u) :
    u.lines <:+: d.render.lines := by
  rcases writes with inserted | ⟨r, member, -, rfl⟩
  · have inside : u.lines <:+: d.inserted.lines := by
      rw [show d.inserted = '\n' :: u from inserted, Text.lines_cons_feed]
      exact (List.suffix_cons _ _).isInfix
    have filled : d.inserted ≠ [] := by simp [inserted]
    exact inside.trans (inPlace.lines_infix low high size (.inr (.inl (by simp [shown, filled]))))
  · exact inPlace.lines_infix low high size (.inr (.inr ⟨r, member, rfl⟩))

end Draft

theorem Draft.LeavesConstructor.lines_infix {d : Draft} (leaves : d.LeavesConstructor)
    {c : ClassDecl} (own : d.IsOf c) {text : Text} (scanned : c ∈ scan text) {ctor : Constructor}
    {last : Nat} (found : c.ctor = some ctor) (complete : ctor.lastLine = some last)
    (above : last + 1 < c.firstLine + c.lines.length)
    (uncovered : ∀ i, ctor.firstLine ≤ i → i ≤ last → d.replacementAt? i = none) :
    ctor.text.lines <:+: d.render.lines := by
  obtain ⟨low, order, -, written, -⟩ :=
    (represents_of_mem_scan scanned).ctor ctor last found complete
  obtain ⟨header, before, rest, lines, first, reach, below⟩ :=
    (standsIn_of_mem_scan scanned).split_linesFrom low order above
  have whole : ∀ line ∈ linesFrom text.lines ctor.firstLine last, '\n' ∉ line := fun line inside =>
    Text.notMem_of_mem_lines (List.mem_of_mem_take (List.mem_of_mem_drop inside))
  have filled : linesFrom text.lines ctor.firstLine last ≠ [] := by
    rw [← List.length_pos_iff]
    omega
  rw [written, Text.lines_unlines filled whole]
  refine free_infix_render (own.lines.trans lines) below leaves.1 whole ?_
  rw [own.firstLine]
  exact fun i low high => uncovered i (by omega) (by omega)

theorem passed_eq_taken_new {c : ClassDecl} {l : ParamLayout} (braces : l.inBraces) :
    c.passedByPosition = l.taken ↔ ∀ name ∈ c.fieldNames, name ∈ c.namedFields := by
  have none : l.taken = [] := by
    by_contra some
    obtain ⟨field, taken⟩ := List.exists_mem_of_ne_nil _ some
    rw [l.inBraces_of_mem_taken taken] at braces
    cases braces
  rw [none, passedByPosition_eq_nil_iff]

theorem namedFields_of_none {c : ClassDecl} (absent : c.ctor = none) :
    c.namedFields = c.fieldNames := by
  simp [ClassDecl.namedFields, absent]

/-! ## Calls beside the constructor -/

/-- A text is, indented, a constructor of a class with the given parameters. -/
def ClassDecl.Prints (c : ClassDecl) (indent u : Text) (l : ParamLayout) : Prop :=
  ∃ own, u = Text.indentBlock indent own ∧ IsConstructor c.name own l ∧
    ((∀ name ∈ c.fieldNames, ∀ d ∈ name, FieldParam.isNameChar d) → l.IsFormed)

/-- The fields that a call in an edited class passes by position, beside those that the
    constructor takes by position. The constructor is the one that was read and stays, a new
    one, or one that is written in the place of the one that was read. -/
structure Draft.FitsConstructor (d : Draft) (c : ClassDecl) (indent : Text) (closing : Nat)
    (passed : List Text) : Prop where
  unread : c.ctor = none → passed = []
  stands : d.LeavesConstructor → ∀ ctor last, c.ctor = some ctor → ctor.lastLine = some last →
    last < closing → (∀ i, ctor.firstLine ≤ i → i ≤ last → d.replacementAt? i = none) →
    ctor.text.lines <:+: d.render.lines
  stays : d.LeavesConstructor → ∀ ctor, c.ctor = some ctor → ∀ l, ParamLayout.IsFormed l →
    IsConstructor c.name ctor.text l →
    (passed = l.taken ↔ if c.hasNamedConstructor then l.taken = []
      else l.inBraces = false ∧ l.TakesInOrder c.fieldNames)
  written : ∀ u, d.WritesConstructor u → d.HasRoom closing → u.lines <:+: d.render.lines
  new : ∀ u, d.WritesConstructor u → c.hasConstructor = false → ∃ l, c.Prints indent u l ∧
    l.inBraces ∧ l.bindings.map (·.name) = c.fieldNames ∧
    (passed = l.taken ↔ ∀ name ∈ c.fieldNames, name ∈ c.namedFields)
  rewritten : ∀ u, d.WritesConstructor u → ∀ ctor, c.ctor = some ctor → ctor.lastLine.isSome →
    ∀ old, ParamLayout.IsFormed old → IsConstructor c.name ctor.text old →
    ∃ l, c.Prints indent u l ∧ (passed = l.taken ↔ if c.hasNamedConstructor then l.taken = []
      else old.inBraces = false ∧ old.StaysInOrder c.fieldNames)

theorem Draft.IsReviewOf.fitsConstructor {s : Surroundings} {selector : Option MemberKind}
    {c : ClassDecl} {d : Draft} (left : d.IsReviewOf (draftFor s selector c)) (own : d.IsOf c)
    {text : Text} (scanned : c ∈ scan text) (valid : c.isValid)
    (styled : s.style.indent? = .ok s.indent) {closing : Nat} (closes : c.lastLine = some closing) :
    d.FitsConstructor c s.indent closing c.passedByPosition := by
  have label := isLabel_of_mem_scan scanned
  obtain ⟨lastField, closing', -, closes', low, high, length, inPlace⟩ :=
    left.inPlace_iff own scanned valid styled
  obtain rfl : closing' = closing := Option.some.inj (closes'.symm.trans closes)
  refine ⟨?unread, ?stands, ?stays, ?written, ?new, ?rewritten⟩
  case unread =>
    intro absent
    rw [passedByPosition_eq_nil_iff, namedFields_of_none absent]
    exact fun name declared => declared
  case stands =>
    intro leaves ctor last found complete above uncovered
    exact leaves.lines_infix own scanned found complete (by omega) uncovered
  case stays =>
    intro leaves ctor found l formed isConstructor
    exact passed_eq_taken_iff found formed (isConstructor.reads label formed) valid
  case written =>
    intro u written room
    rw [← own.firstLine] at low
    rw [← own.firstLine, ← own.lines] at length
    exact written.lines_infix (inPlace.mpr room) low high length
  case new =>
    intro u written absent
    obtain rfl := left.eq_constructorText written
    obtain ⟨own, l, same, isConstructor, sound, braces, names⟩ :=
      exists_laysOut_new scanned valid absent (isBlankText_of_indent? styled)
    exact ⟨l, ⟨own, same, isConstructor, sound⟩, braces, names, passed_eq_taken_new braces⟩
  case rewritten =>
    intro u written ctor found complete old formed isConstructor
    obtain rfl := left.eq_constructorText written
    have read := isConstructor.reads label formed
    obtain ⟨key, lead, inner, rest, -, same, leads, laid, -, sound⟩ :=
      exists_laysOut_rearranged scanned valid found complete formed read styled
    exact ⟨_, ⟨_, same, ⟨lead, inner, rest, isLead_of_eq leads, rfl, laid⟩, sound⟩,
      passed_eq_taken_rearranged_iff found (by simpa using complete) formed read valid s.style key⟩

end Dart

namespace Request

open Dart

variable {request : Request} {text : Text} {before after : Interview} {g : Generated}

/-- In every class that a run writes `copyWith` or `fromMap` for, the member calls the
    constructor with the fields in the order of declaration. What it passes by position is
    what the constructor in the class takes by position exactly under a condition on the
    parameters that the old constructor has. -/
theorem passedByPosition_eq_iff (returned : (request.generate text).Returns before g after) :
    ∃ imports drafts indent, (request.reviewed text).Returns before (imports, drafts) after ∧
      request.style.indent? = .ok indent ∧ drafts.length = (request.targets text).length ∧
      ∀ d c, (d, c) ∈ drafts.zip (request.targets text) → ∃ added closing,
        d.appended = (added.flatMap fun m => '\n' :: m.2) ∧
        added.map (·.1) = (kindsFor request.style c.header request.selector).filter
          (fun kind => kind ≠ .constructor ∧ present? c kind = none) ∧
        c.lastLine = some closing ∧
        (d.LeavesConstructor ∨ ∃ u, d.WritesConstructor u) ∧
        -- whether the constructor looks named is read off its first mark
        (∀ ctor lead after, c.ctor = some ctor → IsLead lead →
          ctor.text = lead ++ (c.name ++ '(' :: after) →
          ¬ "const".toList <+: c.name → (c.hasNamedConstructor ↔ ∃ rest, after = '\x7b' :: rest)) ∧
        ∀ kind ∈ [MemberKind.copyWith, .fromMap], ∀ t, d.Writes added kind t →
          d.render.lines <:+: g.code.lines ∧ (d.HasRoom closing → t.lines <:+: d.render.lines) ∧
          ∃ args, Calls (request.surroundings text indent) c kind t args ∧
            Argument.byPosition args = c.passedByPosition ∧
            d.FitsConstructor c indent closing (Argument.byPosition args) := by
  obtain ⟨imports, drafts, left, rfl⟩ := generate_returns.mp returned
  obtain ⟨indent, styled, size, each⟩ := each_reviewed left
  refine ⟨imports, drafts, indent, left, styled, size, ?_⟩
  intro d c pair
  obtain ⟨scanned, valid, own, reviewed⟩ := each d c pair
  let s := request.surroundings text indent
  have noFeed : '\n' ∉ s.indent := @notMem_of_indent? s.style _ styled
  obtain ⟨lastField, closing, -, closes, low, high, length, inPlace⟩ :=
    reviewed.inPlace_iff own scanned valid styled
  rw [← own.firstLine, ← own.lines] at length
  rw [← own.firstLine] at low
  refine ⟨_, closing, reviewed.appended_eq, ?_, closes,
    reviewed.constructor.imp_right fun own => ⟨_, own⟩, ?_, ?_⟩
  · rw [addedFor, List.map_map]
    exact List.map_id _
  · intro ctor lead after found isLead split other
    exact hasNamedConstructor_iff isLead (isLabel_of_mem_scan scanned) found split rfl other
  intro kind kinds t writes
  have calls : kind = .copyWith ∨ kind = .fromMap := by simpa using kinds
  refine ⟨render_infix_finish left pair (writes.hasChanges reviewed.appended_eq),
    fun room => writes.lines_infix (inPlace.mpr room) low high length reviewed.appended_eq,
    argumentsFor s c kind, ?_, byPosition_argumentsFor s kind, ?_⟩
  · rw [reviewed.eq_methodText scanned valid noFeed calls writes]
    exact (calls_of_written scanned valid noFeed calls).2
  · rw [byPosition_argumentsFor]
    exact reviewed.fitsConstructor own scanned valid styled closes

/-- The constructor takes its fields the other way round and stays as it is; `copyWith`
    passes them as they are declared. -/
theorem passedByPosition_swapped :
    let request : Request := { style := {}, selector := some .copyWith }
    let text : Text :=
      "class A \x7b\n  final int a;\n  final int b;\n\n  A(this.b, this.a);\n\x7d\n"
    let ctor : Text := "  A(this.b, this.a);"
    let l : ParamLayout := ⟨[.ofForm ("b", .bare), .ofForm ("a", .bare)], none⟩
    ∃ g after c t args, (request.generate text).Returns {} g after ∧ c ∈ scan text ∧
      ctor.lines <:+: g.code.lines ∧ IsConstructor c.name ctor l ∧ l.IsFormed ∧
      t.lines <:+: g.code.lines ∧ Calls (request.surroundings text "  ") c .copyWith t args ∧
      l.taken = ["b".toList, "a".toList] ∧ Argument.byPosition args = ["a".toList, "b".toList] := by
  intro request text ctor l
  obtain ⟨found, pairs⟩ : request.targets text ≠ [] ∧
      ((request.pending text "  ").2.zip (request.targets text)).map (fun p =>
          decide ((p.1.HasRoom 6 ∧ p.1.inserted = [] ∧ p.1.replacements = []) ∧
            p.2.ctor = some ⟨ctor, 5, some 5⟩ ∧
            p.2.name = "A".toList ∧ p.2.lastLine = some 6 ∧
              p.2.passedByPosition = ["a".toList, "b".toList] ∧
            (kindsFor request.style p.2.header request.selector).filter
              (fun kind => kind ≠ .constructor ∧ present? p.2 kind = none) = [.copyWith])) =
        [true] := by
    decide +kernel
  have style : request.style.indent? = .ok "  ".toList := rfl
  have returned := returns_written found style
  obtain ⟨imports, drafts, indent, left, styled, size, each⟩ := passedByPosition_eq_iff returned
  obtain ⟨rfl, rfl⟩ := reviewed_of_silent left style
  obtain rfl : indent = "  ".toList := Except.ok.inj (styled.symm.trans style)
  obtain ⟨⟨d, c⟩, rest, zipped, same, -⟩ := List.map_eq_cons_iff.mp pairs
  obtain ⟨⟨room, inserted, replacements⟩, own, name, closes, passed, kinds⟩ :=
    of_decide_eq_true same
  dsimp only at replacements name
  have pair : (d, c) ∈ (request.pending text "  ").2.zip (request.targets text) := by
    rw [zipped]; simp
  obtain ⟨added, closing, -, listed, last, -, -, members⟩ := each d c pair
  obtain rfl : closing = 6 := Option.some.inj (last.symm.trans closes)
  rw [kinds] at listed
  obtain ⟨⟨kind, t⟩, _, rfl, rfl, -⟩ := List.map_eq_cons_iff.mp listed
  obtain ⟨shown, stands, args, calls, byPosition, fits⟩ :=
    members .copyWith (by simp) t (.inl (by simp))
  have leaves : d.LeavesConstructor := ⟨inserted, by simp [replacements]⟩
  have laid : l.LaysOut "this.b, this.a" := by
    have last := @Text.Lists.last "this.a".toList " ".toList [] rfl rfl
    exact .plain (@Text.Lists.cons "this.b".toList [] [] _ _ rfl rfl last)
  have formed : l.IsFormed := by
    refine ⟨?_, by decide⟩
    intro p inside
    simp only [ParamLayout.all, ParamLayout.inside, l, Option.map_none, Option.getD_none,
      List.append_nil, List.mem_cons, List.not_mem_nil, or_false] at inside
    rcases inside with rfl | rfl
    · exact @Param.isFormed_ofForm "b".toList .bare (by rintro _ ⟨⟩) (by decide) (by decide)
        (by rintro _ ⟨⟩)
    · exact @Param.isFormed_ofForm "a".toList .bare (by rintro _ ⟨⟩) (by decide) (by decide)
        (by rintro _ ⟨⟩)
  refine ⟨_, _, c, t, args, returned, targets_sublist.subset (List.of_mem_zip pair).2,
    ?_, ?_, formed,
    (stands room).trans shown, ?_, rfl, byPosition.trans passed⟩
  · refine (fits.stands leaves _ 5 own rfl (by decide) fun i _ _ => ?_).trans shown
    simp [Draft.replacementAt?, replacements]
  · exact ⟨"  ".toList, "this.b, this.a".toList, ";".toList, .inl rfl, by rw [name]; decide, laid⟩
  · exact calls

end Request

end ValueClass
