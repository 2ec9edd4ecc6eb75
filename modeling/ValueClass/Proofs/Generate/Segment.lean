import ValueClass.Proofs.Edit.Body
import ValueClass.Proofs.Generate.Frame
import ValueClass.Proofs.Member.Apart
import ValueClass.Proofs.Member.NamedStyle
import ValueClass.Proofs.Member.Rewritten
import ValueClass.Proofs.Member.Segment

/-! # The constructor in the edited buffer

A constructor that is written anew stands in the buffer once, in the place of the old
one, and the lines that followed the old one follow the new one. So what stood behind
the parameter list is in the buffer just when the text of the new constructor holds it.
-/

namespace ValueClass

theorem LineEdit.text_infix_foldl {edits : List LineEdit} {lines : List Text}
    (plan : BottomUp lines.length edits) {e : LineEdit} (member : e ∈ edits) :
    e.text.lines <:+: edits.foldl (fun ls e => e.applyTo ls) lines := by
  induction edits generalizing lines with
  | nil => simp at member
  | cons first rest ih =>
      rw [foldl_applyTo_cons plan]
      rcases List.mem_cons.mp member with rfl | member
      · exact ⟨_, _, rfl⟩
      · obtain ⟨start, order, stop⟩ := plan.inRange first (by simp)
        have inner : BottomUp (lines.take first.start.toNat).length rest := by
          rw [List.length_take, Nat.min_eq_left (by omega)]
          exact plan.tail
        refine (ih inner member).trans ?_
        rw [List.append_assoc]
        exact (List.prefix_append _ _).isInfix

namespace Dart

/-! ## The texts of a class -/

namespace Draft

variable {d : Draft} {r : Replacement} {written : List Text}

/-- A text that is no line of the class and not in the place of one is not written. -/
theorem notMem_lineTexts (d : Draft) (written : List Text) (lineNo : Nat) (isLast : Bool)
    {t line : Text} (other : line ≠ t) (appended : isLast → d.appended ≠ t)
    (apart : ∀ x, d.replacementAt? lineNo = some x → x.text ≠ t ∨ t ∈ written) :
    t ∉ (d.lineTexts written lineNo isLast line).1 ∧
      (t ∉ written → t ∉ (d.lineTexts written lineNo isLast line).2) ∧
      (t ∈ written → t ∈ (d.lineTexts written lineNo isLast line).2) := by
  rw [lineTexts]
  split
  · rename_i x found
    split
    · exact ⟨by simp, id, id⟩
    · rename_i new
      have new : x.text ∉ written := by simpa using new
      have differs : x.text ≠ t := by
        rcases apart x found with differs | old
        · exact differs
        · rintro rfl
          exact new old
      exact ⟨by simpa using differs.symm, fun absent => by simp [absent, differs.symm],
        List.mem_cons_of_mem _⟩
  · refine ⟨?_, id, id⟩
    dsimp only
    split
    · rename_i last
      simp only [Bool.and_eq_true] at last
      simp [(appended last.1).symm, other.symm]
    · simp [other.symm]

/-- Lines before a text is written. -/
theorem bodyTexts_above {t : Text} {lineNo : Nat} {above rest : List Text} (below : rest ≠ [])
    (nothing : d.inserted = []) (lines : ∀ line ∈ above, line ≠ t) (absent : t ∉ written)
    (apart : ∀ i x, lineNo ≤ i → i < lineNo + above.length → d.replacementAt? i = some x →
      x.text ≠ t) :
    ∃ pieces written', t ∉ pieces ∧ t ∉ written' ∧
      d.bodyTexts written lineNo (above ++ rest) =
        pieces ++ d.bodyTexts written' (lineNo + above.length) rest := by
  induction above generalizing lineNo written with
  | nil => exact ⟨[], written, by simp, absent, rfl⟩
  | cons line more ih =>
      have middle : (more ++ rest).isEmpty = false := by simp [below]
      obtain ⟨unwritten, kept, -⟩ :=
        notMem_lineTexts d written lineNo false (lines line (by simp)) (by simp)
        fun x found => .inl (apart lineNo x (Nat.le_refl _) (by simp) found)
      have later : ∀ i x, lineNo + 1 ≤ i → i < lineNo + 1 + more.length →
          d.replacementAt? i = some x → x.text ≠ t := by
        intro i x low high
        exact apart i x (by omega) (by simp only [List.length_cons]; omega)
      obtain ⟨pieces, written', inside, behind, split⟩ :=
        ih (fun l member => lines l (List.mem_cons_of_mem _ member)) (kept absent) later
      refine ⟨(d.lineTexts written lineNo false line).1 ++ pieces, written', ?_, behind, ?_⟩
      · simp [unwritten, inside]
      · rw [List.cons_append, bodyTexts, middle]
        dsimp only
        rw [insertedAfter_eq_nil nothing, split, List.length_cons, List.append_nil,
          List.append_assoc, show lineNo + 1 + more.length = lineNo + (more.length + 1) by omega]

theorem notMem_bodyTexts {t : Text} {lineNo : Nat} {rest : List Text} (nothing : d.inserted = [])
    (lines : ∀ line ∈ rest, line ≠ t) (appended : d.appended ≠ t) (present : t ∈ written) :
    t ∉ d.bodyTexts written lineNo rest := by
  induction rest generalizing lineNo written with
  | nil => simp [bodyTexts]
  | cons line more ih =>
      obtain ⟨unwritten, -, kept⟩ :=
        notMem_lineTexts d written lineNo more.isEmpty (lines line (by simp))
        (fun _ => appended) fun x found => .inr present
      rw [bodyTexts]
      dsimp only
      rw [insertedAfter_eq_nil nothing, List.append_nil, List.mem_append, not_or]
      exact ⟨unwritten, ih (fun l member => lines l (List.mem_cons_of_mem _ member)) (kept present)⟩

/-- A text stands once among what is written for a class, followed by some lines. -/
def WritesOnce (d : Draft) (t : Text) (next : List Text) : Prop :=
  ∃ header above below, d.render = Text.unlines (header :: (above ++ t :: (next ++ below))) ∧
    t ∉ above ∧ t ∉ next ++ below

theorem replacementAt?_first {others : List Replacement}
    (replacements : d.replacements = r :: others) {i : Nat} (low : r.span.first ≤ i)
    (high : i ≤ r.span.last) : d.replacementAt? i = some r := by
  rw [replacementAt?, replacements, List.find?_cons_of_pos]
  simp [Span.covers, low, high]

theorem mem_of_replacementAt?_above {others : List Replacement}
    (replacements : d.replacements = r :: others) {i : Nat} {x : Replacement}
    (low : i < r.span.first) (found : d.replacementAt? i = some x) : x ∈ others := by
  rw [replacementAt?, replacements, List.find?_cons_of_neg] at found
  · exact List.mem_of_find?_eq_some found
  · simp only [Span.covers, Bool.and_eq_true, decide_eq_true_eq]
    omega

theorem bodyTexts_span {line : Text} {more rest : List Text}
    (takes : ∀ i, r.span.first ≤ i → i ≤ r.span.last → d.replacementAt? i = some r)
    (last : r.span.last + 1 = r.span.first + (more.length + 1)) (nothing : d.inserted = [])
    (new : r.text ∉ written) :
    d.bodyTexts written r.span.first (line :: (more ++ rest)) =
      r.text :: d.bodyTexts (r.text :: written) (r.span.last + 1) rest := by
  have here : d.lineTexts written r.span.first (more ++ rest).isEmpty line =
      ([r.text], r.text :: written) := by
    rw [lineTexts, takes _ (Nat.le_refl _) (by omega)]
    simp [new]
  have gone : d.bodyTexts (r.text :: written) (r.span.first + 1) (more ++ rest) =
      d.bodyTexts (r.text :: written) (r.span.first + 1 + more.length) rest :=
    bodyTexts_covered (fun i low high => ⟨takes i (by omega) (by omega),
      insertedAfter_eq_nil nothing i⟩) (by simp)
  rw [bodyTexts, here]
  dsimp only
  rw [insertedAfter_eq_nil nothing, gone,
    show r.span.first + 1 + more.length = r.span.last + 1 by omega]
  rfl

/-- The first replacement of a draft stands in the class once, before the lines that
    followed what it replaces. -/
theorem writesOnce {header : Text} {above covered next rest : List Text} {others : List Replacement}
    (lines : d.decl.lines = header :: (above ++ covered ++ next ++ rest)) (filled : covered ≠ [])
    (first : r.span.first = d.decl.firstLine + 1 + above.length)
    (last : r.span.last + 1 = r.span.first + covered.length)
    (replacements : d.replacements = r :: others) (apart : ∀ x ∈ others, x.text ≠ r.text)
    (feed : '\n' ∈ r.text) (whole : ∀ line ∈ d.decl.lines, '\n' ∉ line)
    (nothing : d.inserted = []) (appended : d.appended ≠ r.text)
    (below : next = [] ∨ rest ≠ [])
    (free : ∀ i, r.span.last < i → i ≤ r.span.last + next.length → d.replacementAt? i = none) :
    d.WritesOnce r.text next := by
  have other : ∀ line ∈ d.decl.lines, line ≠ r.text := by
    rintro line member rfl
    exact whole r.text member feed
  rw [lines] at other
  simp only [List.append_assoc] at lines other
  obtain ⟨line, more, rfl⟩ := List.exists_cons_of_ne_nil filled
  rw [List.cons_append] at lines other
  rw [List.length_cons] at last
  obtain ⟨pieces, written, absent, new, upper⟩ : ∃ pieces written, r.text ∉ pieces ∧
      r.text ∉ written ∧
      d.bodyTexts [] (d.decl.firstLine + 1) (above ++ line :: (more ++ (next ++ rest))) =
        pieces ++ d.bodyTexts written (d.decl.firstLine + 1 + above.length)
          (line :: (more ++ (next ++ rest))) :=
    bodyTexts_above (by simp) nothing (fun l member => other l (by simp [member])) (by simp)
      fun i x low high found => apart x (mem_of_replacementAt?_above replacements (by omega) found)
  have span : d.bodyTexts written r.span.first (line :: (more ++ (next ++ rest))) =
      r.text :: d.bodyTexts (r.text :: written) (r.span.last + 1) (next ++ rest) :=
    bodyTexts_span (fun i low high => replacementAt?_first replacements low high) last nothing new
  have stays : d.bodyTexts (r.text :: written) (r.span.last + 1) (next ++ rest) =
      next ++ d.bodyTexts (r.text :: written) (r.span.last + 1 + next.length) rest := by
    rcases below with rfl | below
    · rfl
    · exact bodyTexts_free below fun i low high =>
        ⟨free i (by omega) (by omega), insertedAfter_eq_nil nothing i⟩
  refine ⟨if d.headerChanged then d.decl.header.render header else header, pieces,
    d.bodyTexts (r.text :: written) (r.span.last + 1 + next.length) rest, ?_, absent, ?_⟩
  · rw [render, lines]
    dsimp only
    rw [insertedAfter_eq_nil nothing, List.nil_append, upper, ← first, span, stays]
  · rw [List.mem_append, not_or]
    refine ⟨fun member => other r.text (by simp [member]) rfl, ?_⟩
    exact notMem_bodyTexts nothing (fun l member => other l (by simp [member])) appended (by simp)

end Draft

/-! ## The replacement of the constructor -/

theorem kindsFor_constructor {style : Style} {header : Header} {selector : Option MemberKind}
    (member : .constructor ∈ kindsFor style header selector) :
    ∃ rest, kindsFor style header selector = .constructor :: rest ∧ .constructor ∉ rest := by
  have first : ∃ rest, allowedKinds header = .constructor :: rest := by
    simp only [allowedKinds]
    split <;> split <;> first | exact ⟨_, rfl⟩ | (split <;> exact ⟨_, rfl⟩)
  have whole : ∃ rest, kindsFor style header selector = .constructor :: rest := by
    cases selector with
    | some kind =>
        simp only [kindsFor] at member ⊢
        split at member
        · rename_i allowed
          rw [if_pos allowed]
          exact ⟨[], by rw [List.mem_singleton.mp member]⟩
        · simp at member
    | none =>
        obtain ⟨rest, allowed⟩ := first
        simp only [kindsFor] at member ⊢
        have enabled := (List.mem_filter.mp member).2
        rw [allowed, List.filter_cons_of_pos enabled]
        exact ⟨_, rfl⟩
  obtain ⟨rest, split⟩ := whole
  refine ⟨rest, split, ?_⟩
  have once := nodup_kindsFor style header selector
  rw [split] at once
  exact (List.nodup_cons.mp once).1

theorem sublist_cons_of_mem {α : Type} {l rest : List α} {a : α} (sub : l.Sublist (a :: rest))
    (member : a ∈ l) (once : a ∉ rest) : ∃ others, l = a :: others ∧ others.Sublist rest := by
  cases sub with
  | cons _ inner => exact absurd (inner.subset member) once
  | cons_cons _ inner => exact ⟨_, rfl, inner⟩

theorem lastLine_of_isValid {c : ClassDecl} (valid : c.isValid) :
    ∃ closing, c.lastLine = some closing := by
  cases ending : c.lastLine with
  | some closing => exact ⟨closing, rfl⟩
  | none =>
      simp only [ClassDecl.isValid, ClassDecl.issue?, ending] at valid
      split at valid <;> simp at valid

theorem Draft.IsOf.exists_edit {d : Draft} {c : ClassDecl} (h : d.IsOf c) (valid : c.isValid)
    (changed : d.hasChanges) :
    ∃ e, d.edit? = some e ∧ e.text = d.render := by
  obtain ⟨closing, closes⟩ := lastLine_of_isValid valid
  have same : d.decl.isValid = c.isValid := by
    rw [IsOf] at h
    rw [h]
    rfl
  rw [edit?, h.lastLine, closes]
  dsimp only
  rw [same, valid, changed]
  exact ⟨_, rfl, rfl⟩

section Replaced

variable {s : Surroundings} {selector : Option MemberKind} {c : ClassDecl} {d : Draft}
  {r : Replacement}

/-- The replacement of the constructor comes first, and no other has its text. -/
theorem Draft.IsReviewOf.replacements_eq {text : Text} (left : d.IsReviewOf (draftFor s selector c))
    (scanned : c ∈ scan text) (blank : s.indent.isBlankText) (noFeed : '\n' ∉ s.indent)
    (member : r ∈ d.replacements) (name : r.name = MemberKind.constructor.label) :
    replacementFor? s c .constructor = some r ∧
      ∃ others, d.replacements = r :: others ∧ ∀ x ∈ others, x.text ≠ r.text := by
  have pending := left.2
  rw [(draftFor_pending s selector c).2.2] at pending
  obtain ⟨kind, written, found⟩ := List.mem_filterMap.mp (pending.subset member)
  obtain ⟨-, label, -⟩ := replacementFor?_eq_some found
  obtain rfl : kind = .constructor := label_injective (label.symm.trans name)
  obtain ⟨rest, kinds, once⟩ := kindsFor_constructor written
  have others : ∀ x ∈ rest.filterMap (replacementFor? s c), x.text ≠ r.text := by
    intro x later
    obtain ⟨kind, inside, replaced⟩ := List.mem_filterMap.mp later
    have method : kind ≠ .constructor := by
      rintro rfl
      exact once inside
    rw [(replacementFor?_eq_some replaced).2.2, (replacementFor?_eq_some found).2.2]
    exact (constructorText_ne_memberText scanned blank noFeed method).symm
  rw [kinds, List.filterMap_cons_some found] at pending
  obtain ⟨more, split, sub⟩ := sublist_cons_of_mem pending member fun again => others r again rfl
  exact ⟨found, more, split, fun x inside => others x (sub.subset inside)⟩

theorem feed_mem_indentBlock {indent t : Text} (noFeed : '\n' ∉ indent) (feed : '\n' ∈ t) :
    '\n' ∈ Text.indentBlock indent t := by
  by_contra absent
  have lines := congrArg List.length (lines_indentBlock noFeed t)
  rw [Text.lines_of_notMem absent, List.length_map, List.length_singleton] at lines
  obtain ⟨line, one⟩ := List.length_eq_one_iff.mp lines.symm
  have same : t = line := by rw [← Text.unlines_lines t, one, Text.unlines_singleton]
  exact Text.notMem_of_mem_lines (t := t) (by rw [one, same]; simp) feed

theorem feed_mem_constructorText {ctor : Constructor} (valid : c.isValid)
    (found : c.ctor = some ctor) (complete : ctor.lastLine.isNone = false)
    (noFeed : '\n' ∉ s.indent) : '\n' ∈ constructorText s c := by
  have list : '\n' ∈ (ConstructorPlan.ofClass s.style c).listText s.indent := by
    rw [listText_eq_listOf s.style valid found complete]
    cases (ConstructorPlan.ofClass s.style c).bracket? <;> simp [ConstructorPlan.listOf]
  exact feed_mem_indentBlock noFeed (by simp [ConstructorPlan.text, list])

/-- A constructor does not start with a line feed. -/
theorem constructorText_ne_feed {text : Text} (scanned : c ∈ scan text) (noFeed : '\n' ∉ s.indent)
    (rest : Text) :
    constructorText s c ≠ '\n' :: rest := by
  intro same
  obtain ⟨lead, more, split, leads⟩ := ctorFront_text scanned s.style s.indent
  have first : ∃ head tail, lead ++ (c.name ++ '(' :: more) = head :: tail ∧ head ≠ '\n' := by
    rcases leads with rfl | rfl
    · cases name : c.name with
      | nil => exact ⟨'(', more, rfl, by decide⟩
      | cons head tail =>
          refine ⟨head, tail ++ '(' :: more, rfl, ?_⟩
          rintro rfl
          have line := (isLabel_of_mem_scan scanned).1
          simp [name] at line
    · exact ⟨'c', _, rfl, by decide⟩
  obtain ⟨head, tail, start, solid⟩ := first
  have lines := lines_indentBlock noFeed ((ConstructorPlan.ofClass s.style c).text s.indent c.name)
  rw [show Text.indentBlock s.indent _ = '\n' :: rest from same, Text.lines_cons_feed, split, start,
    Text.lines_cons solid] at lines
  cases rows : Text.lines tail with
  | nil => exact absurd rows (Text.lines_ne_nil tail)
  | cons line others =>
      rw [rows, Text.consFirst, List.map_cons, indented] at lines
      have empty := (List.cons.inj lines).1
      split at empty <;> simp at empty

/-- What is added at the end of a class is not its constructor. -/
theorem appended_ne_constructorText {text : Text} (feed : '\n' ∈ constructorText s c)
    (left : d.IsReviewOf (draftFor s selector c)) (scanned : c ∈ scan text)
    (noFeed : '\n' ∉ s.indent) : d.appended ≠ constructorText s c := by
  have same : d.appended = (kindsFor s.style c.header selector).flatMap (appendedFor s c) := by
    rw [left.1]
    exact (draftFor_pending s selector c).2.1
  have starts : ∀ kinds : List MemberKind, kinds.flatMap (appendedFor s c) = [] ∨
      ∃ rest, kinds.flatMap (appendedFor s c) = '\n' :: rest := by
    intro kinds
    induction kinds with
    | nil => exact .inl rfl
    | cons kind rest ih =>
        rw [List.flatMap_cons, appendedFor]
        split
        · exact .inr ⟨_, rfl⟩
        · exact ih
  rw [same]
  rcases starts (kindsFor s.style c.header selector) with none | ⟨rest, some⟩
  · rw [none]
    exact (List.ne_nil_of_mem feed).symm
  · rw [some]
    exact (constructorText_ne_feed scanned noFeed rest).symm

/-- Lines of the buffer between the header of a class and its end, among its own. -/
theorem ClassDecl.StandsIn.linesFrom_eq {buffer : List Text} (h : c.StandsIn buffer) {header : Text}
    {body : List Text} (lines : c.lines = header :: body) {start stop : Nat}
    (within : stop ≤ body.length) :
    linesFrom buffer (c.firstLine + 1 + start) (c.firstLine + stop) =
      (body.take stop).drop start := by
  obtain ⟨top, bottom, split, place⟩ := h.place
  have upper : (top ++ [header]).length = c.firstLine := by simp [place]
  have whole : buffer = (top ++ [header]) ++ (body ++ bottom) := by
    rw [split, lines]
    simp
  rw [linesFrom, whole, ← upper, List.take_length_add_append, List.take_append_of_le_length within,
    show (top ++ [header]).length + 1 + start - 1 = (top ++ [header]).length + start by omega,
    List.drop_length_add_append]

/-- The lines of a class around its constructor. -/
theorem ClassDecl.Represents.split_ctor {buffer : List Text} (h : c.Represents buffer)
    {ctor : Constructor} {last : Nat} (found : c.ctor = some ctor)
    (complete : ctor.lastLine = some last) {stop : Nat} (order : last ≤ stop)
    (inside : stop = last ∨ stop + 1 < c.firstLine + c.lines.length) :
    ∃ header above covered rest,
      c.lines = header :: (above ++ covered ++ linesFrom buffer (last + 1) stop ++ rest) ∧
        covered ≠ [] ∧
        ctor.firstLine = c.firstLine + 1 + above.length ∧
          last + 1 = ctor.firstLine + covered.length ∧
        last + (linesFrom buffer (last + 1) stop).length = stop ∧
        (linesFrom buffer (last + 1) stop = [] ∨ rest ≠ []) := by
  obtain ⟨header, body, lines, -⟩ := h.header
  obtain ⟨low, upper, within, -, -⟩ := h.ctor ctor last found complete
  rw [lines, List.length_cons] at within inside
  obtain ⟨start, starts⟩ : ∃ start, ctor.firstLine = c.firstLine + 1 + start :=
    ⟨ctor.firstLine - c.firstLine - 1, by omega⟩
  obtain ⟨closed, closes⟩ : ∃ closed, last = c.firstLine + closed := ⟨last - c.firstLine, by omega⟩
  obtain ⟨far, reaches⟩ : ∃ far, stop = c.firstLine + far := ⟨stop - c.firstLine, by omega⟩
  have next : linesFrom buffer (last + 1) stop = (body.take far).drop closed := by
    rw [reaches, show last + 1 = c.firstLine + 1 + closed by omega]
    exact h.linesFrom_eq lines (by omega)
  have size : ((body.take far).drop closed).length = far - closed := by
    rw [List.length_drop, List.length_take]
    omega
  refine ⟨header, body.take start, (body.take closed).drop start, body.drop far, ?_, ?_,
    ?_, ?_, ?_, ?_⟩
  · have join : ∀ {a b : Nat}, a ≤ b → body.take a ++ (body.take b).drop a = body.take b := by
      intro a b order
      conv_rhs => rw [← List.take_append_drop a (body.take b), List.take_take,
        Nat.min_eq_left order]
    rw [lines, next, join (by omega), join (by omega), List.take_append_drop]
  · rw [← List.length_pos_iff, List.length_drop, List.length_take]
    omega
  · rw [List.length_take]
    omega
  · rw [List.length_drop, List.length_take]
    omega
  · rw [next, size]
    omega
  · rcases inside with same | inside
    · refine .inl (List.length_eq_zero_iff.mp ?_)
      rw [next, size]
      omega
    · refine .inr ?_
      rw [← List.length_pos_iff, List.length_drop]
      omega

theorem present?_constructor {span : Span} (h : present? c .constructor = some span) :
    ∃ ctor last, c.ctor = some ctor ∧ ctor.lastLine = some last ∧
      span = { first := ctor.firstLine, last, text := ctor.text } := by
  simp only [present?] at h
  split at h
  · rename_i ctor
    exact ⟨_, _, ctor, rfl, (Option.some.inj h).symm⟩
  · cases h

/-- The new constructor stands in the class once, before the lines that followed the
    old one. -/
theorem Draft.IsReviewOf.writesOnce {text : Text} (left : d.IsReviewOf (draftFor s selector c))
    (scanned : c ∈ scan text) (valid : c.isValid) (blank : s.indent.isBlankText)
    (noFeed : '\n' ∉ s.indent) (member : r ∈ d.replacements)
    (name : r.name = MemberKind.constructor.label) :
    ∃ ctor last, c.ctor = some ctor ∧ ctor.lastLine = some last ∧ r.text = constructorText s c ∧
      ∀ stop, last ≤ stop →
        (∀ i, last < i → i ≤ stop → i + 1 < c.firstLine + c.lines.length ∧
          d.replacementAt? i = none) →
        d.WritesOnce r.text (linesFrom text.lines (last + 1) stop) := by
  obtain ⟨replaced, others, replacements, apart⟩ :=
    left.replacements_eq scanned blank noFeed member name
  obtain ⟨present, -, written⟩ := replacementFor?_eq_some replaced
  obtain ⟨ctor, last, found, complete, span⟩ := present?_constructor present
  refine ⟨ctor, last, found, complete, written, ?_⟩
  intro stop order free
  have own : d.IsOf c := by
    rw [Draft.IsOf, left.1]
    exact (alike_draftFor _ _ c).body
  have represents := represents_of_mem_scan scanned
  have inside : stop = last ∨ stop + 1 < c.firstLine + c.lines.length := by
    rcases Nat.eq_or_lt_of_le order with same | further
    · exact .inl same.symm
    · exact .inr (free stop further (Nat.le_refl _)).1
  obtain ⟨header, above, covered, rest, lines, filled, first, size, reach, below⟩ :=
    represents.split_ctor found complete order inside
  have feed : '\n' ∈ constructorText s c :=
    feed_mem_constructorText valid found (by simp [complete]) noFeed
  have nothing : d.inserted = [] := by
    rw [left.1]
    show (draftFor s selector c).inserted = []
    rw [(draftFor_pending s selector c).1,
      flatMap_insertedFor s c (nodup_kindsFor s.style c.header selector)]
    split
    · rw [insertedFor, if_neg]
      simp [present]
    · rfl
  refine Draft.writesOnce (own.lines.trans lines) filled ?_ ?_ replacements apart ?_ ?_
    nothing ?_ below ?_
  · rw [span, own.firstLine]
    exact first
  · rw [span]
    exact size
  · rw [written]
    exact feed
  · rw [own.lines]
    obtain ⟨top, bottom, split, -⟩ := represents.place
    exact fun line inside => Text.notMem_of_mem_lines (t := text) (by rw [split]; simp [inside])
  · rw [written]
    exact appended_ne_constructorText feed left scanned noFeed
  · intro i low high
    rw [span] at low high
    exact (free i low (by rw [reach] at high; exact high)).2

end Replaced

end Dart

namespace Request

open Dart

variable {request : Request} {text : Text} {before after : Interview}

/-- A class with changes stands in the edited buffer as it is written. -/
theorem render_infix_finish {imports : Imports} {drafts : List Draft}
    (left : (request.reviewed text).Returns before (imports, drafts) after) {d : Draft}
    {c : ClassDecl} (pair : (d, c) ∈ drafts.zip (request.targets text)) (changed : d.hasChanges) :
    d.render.lines <:+: (request.finish text imports drafts).code.lines := by
  obtain ⟨isOf, needs, rfl⟩ := isOf_of_reviewed left
  have plan := @bottomUp_requireAll text request.project.packageName needs drafts
    ⟨request.targets text, targets_sublist, isOf⟩
  obtain ⟨drafted, target⟩ := List.of_mem_zip pair
  obtain ⟨e, edit, rendered⟩ :=
    ((List.forall₂_iff_zip.mp isOf).2 pair).exists_edit (List.mem_filter.mp target).2 changed
  rw [finish, LineEdit.lines_applyAll, LineEdit.bottomUp_eq_self plan.descending, ← rendered]
  apply LineEdit.text_infix_foldl plan
  exact List.mem_append_left _ (List.mem_filterMap.mpr ⟨d, List.mem_reverse.mpr drafted, edit⟩)

end Request

open Dart in
/-- A constructor that a run writes anew stands in the buffer once, in the place of the
    old one and before the lines that followed it. It holds what stood behind the old
    parameter list, unless that gives way to the key of a widget and is more than the
    end of a declaration or the passed key itself. -/
theorem Request.generate_keepsSegment_iff {request : Request} {text : Text}
    {before after : Interview} {g : Generated}
    (returned : (request.generate text).Returns before g after) :
    ∃ imports drafts indent, (request.reviewed text).Returns before (imports, drafts) after ∧
      drafts.length = (request.targets text).length ∧
      ∀ d c, (d, c) ∈ drafts.zip (request.targets text) →
        ∀ r ∈ d.replacements, r.name = MemberKind.constructor.label →
          ∃ ctor last closing, c.ctor = some ctor ∧ ctor.lastLine = some last ∧
            c.lastLine = some closing ∧
            d.render.lines <:+: g.code.lines ∧
            (∀ stop, last ≤ stop →
              (∀ i, last < i → i ≤ stop → i < closing ∧ d.replacementAt? i = none) →
              d.WritesOnce r.text (linesFrom text.lines (last + 1) stop)) ∧
            ∀ lead params segment : Text, IsLead lead → CtorParts.Balanced 1 params 1 →
              ctor.text = lead ++ (c.name ++ '(' :: (params ++ ')' :: segment)) →
              (c.KeepsSegment ctor
                ((ConstructorPlan.ofClass request.style c).headText indent c.name) r.text segment ↔
                (c.DropsSegment ctor segment →
                  segment.ink = ";".toList ∨ segment.ink = ":super(key:key);".toList)) := by
  obtain ⟨imports, drafts, left, rfl⟩ := generate_returns.mp returned
  obtain ⟨indent, styled, size, each⟩ := each_reviewed left
  refine ⟨imports, drafts, indent, left, size, ?_⟩
  intro d c pair r member name
  obtain ⟨scanned, valid, own, reviewed⟩ := each d c pair
  obtain ⟨closing, closes⟩ := lastLine_of_isValid valid
  have blank := isBlankText_of_indent? styled
  have noFeed := notMem_of_indent? styled
  obtain ⟨ctor, last, found, complete, written, once⟩ :=
    reviewed.writesOnce scanned valid blank noFeed member name
  have ending := (standsIn_of_mem_scan scanned).ending closing closes
  refine ⟨ctor, last, closing, found, complete, closes, ?_, ?_, ?_⟩
  · have some : d.replacements.isEmpty = false := by simpa using List.ne_nil_of_mem member
    exact render_infix_finish left pair (by simp [Draft.hasChanges, some])
  · intro stop order free
    apply once stop order
    intro i low high
    have := free i low high
    exact ⟨by omega, this.2⟩
  · intro lead params segment isLead balanced split
    rw [written]
    exact Dart.keepsSegment_iff (s := request.surroundings text indent) isLead
      (isLabel_of_mem_scan scanned) found
      (by simp [complete]) split balanced blank

open Dart in
/-- A widget whose constructor asserts something: its key takes the place of the
    assertion. -/
theorem Request.generate_keepsSegment_iff_widget :
    let request : Request := { selector := some .constructor }
    let text : Text :=
      "class A extends StatelessWidget \x7b\n int x;\n A(this.x) : assert(x > 0);\n\x7d"
    let segment : Text := " : assert(x > 0);"
    (request.targets text).map (fun c => c.ctor.map fun ctor =>
        (ctor.text, decide (c.header.isWidget ∧ ¬ segment.has "super(" ∧
          ∀ p ∈ (KeptParams.ofConstructor c ctor).extras ++
            (KeptParams.ofConstructor c ctor).groupExtras,
            ¬ p.endsWith "super.key"))) = [some (" A(this.x)".toList ++ segment, true)] ∧
      ∃ g after, (request.generate text).Returns {} g after ∧
        ∃ imports drafts indent, (request.reviewed text).Returns {} (imports, drafts) after ∧
          drafts.length = (request.targets text).length ∧
          ∀ d c, (d, c) ∈ drafts.zip (request.targets text) →
            ∀ r ∈ d.replacements, r.name = MemberKind.constructor.label →
              ∃ ctor last closing, c.ctor = some ctor ∧ ctor.lastLine = some last ∧
                c.lastLine = some closing ∧
                d.render.lines <:+: g.code.lines ∧
                (∀ stop, last ≤ stop →
                  (∀ i, last < i → i ≤ stop → i < closing ∧ d.replacementAt? i = none) →
                  d.WritesOnce r.text (linesFrom text.lines (last + 1) stop)) ∧
                ∀ lead params segment : Text, IsLead lead → CtorParts.Balanced 1 params 1 →
                  ctor.text = lead ++ (c.name ++ '(' :: (params ++ ')' :: segment)) →
                  (c.KeepsSegment ctor
                    ((ConstructorPlan.ofClass request.style c).headText indent c.name) r.text
                      segment ↔
                    (c.DropsSegment ctor segment →
                      segment.ink = ";".toList ∨ segment.ink = ":super(key:key);".toList)) := by
  intro request text segment
  have targets : (request.targets text).map (fun c => c.ctor.map fun ctor =>
      (ctor.text, decide (c.header.isWidget ∧ ¬ segment.has "super(" ∧
        ∀ p ∈ (KeptParams.ofConstructor c ctor).extras ++
          (KeptParams.ofConstructor c ctor).groupExtras,
          ¬ p.endsWith "super.key"))) = [some (" A(this.x)".toList ++ segment, true)] := by
    decide +kernel
  have found : request.targets text ≠ [] := by
    intro none
    rw [none] at targets
    cases targets
  have returned := returns_written found (show request.style.indent? = .ok "  ".toList from rfl)
  exact ⟨targets, _, _, returned, generate_keepsSegment_iff returned⟩

end ValueClass
