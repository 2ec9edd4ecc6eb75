import Mathlib.Data.List.Find
import ValueClass.Proofs.Edit.Body
import ValueClass.Proofs.Fresh.Equality
import ValueClass.Proofs.Fresh.Shown
import ValueClass.Proofs.Generate.Run

/-! # Classes that have grown

What a fresh class can become: its header may extend a class, a constructor may stand
below its fields, and calm lines follow. Such a class is read back to the name and the
fields of the fresh class, and whatever is written into it, it is such a class again.
-/

namespace ValueClass.Fresh

open Dart Dart.Line

section MethodLines

variable (s : Surroundings) (c : ClassText)

def ClassText.methodLines (kind : MemberKind) : List Text :=
  (Text.indentBlock s.indent (methodText s c.plain kind)).lines

namespace ClassText

variable {s c}

theorem methodLines_eq {kind : MemberKind} {first : Text} {more : List Text}
    (ind : IsIndent s.indent)
    (sheet : Sheet c s.indent (methodText s c.plain kind) kind first more) :
    c.methodLines s kind = (if isMarked kind then [s.indent ++ markLine] else []) ++
      (first :: more).map (indented s.indent) :=
  sheet.layout.lines_indentBlock ind.noFeed

theorem quietLine_mark (c : ClassText) {indent : Text} (ind : IsIndent indent) :
    QuietLine c.name 1 (indent ++ markLine) := by
  have unquoted : ∀ e ∈ indent ++ markLine, isQuote e = false := by
    intro e member
    rcases List.mem_append.mp member with member | member
    · exact unquoted_of_light ind.light e member
    · exact (by decide : ∀ e ∈ markLine, isQuote e = false) e member
  have level : Line.braces (indent ++ markLine) = 0 := by
    rw [braces_append, (snippet_light ind.light).raw]
    decide
  have slash : '/' ∉ indent ++ ['@'] ++ "override".toList := by
    intro member
    rw [List.append_assoc] at member
    rcases List.mem_append.mp member with member | member
    · exact absurd (List.all_eq_true.mp ind.light _ member) (by decide)
    · exact absurd member (by decide)
  have trimmed : Text.trim (indent ++ markLine) = '@' :: "override".toList := by
    refine Text.trim_append_of_blank ind.blank ?_ ?_
    · rintro e rest ⟨⟩
      decide
    · intro e rest same
      have last := congrArg List.getLast? same
      rw [List.getLast?_concat, show markLine.getLast? = some 'e' by decide] at last
      cases last
      decide
  refine ⟨hidesNoBrace_of_unquoted unquoted, ?_, by rw [level]; decide, ?_, ?_⟩
  · rw [Bool.eq_false_iff]
    intro header
    have inside := Header.class_mem_words header
    rw [← Header.words_trimStart, Text.trimStart_append_of_blank ind.blank] at inside
    exact absurd inside (by decide)
  · intro _
    exact c.opensConstructor_of_head trimmed (by decide) (by decide)
  · intro _
    refine not_showsField ?_
    have noField := isField_eq_false_of_mark (by decide) (unquoted_of_light ind.light) slash c.name
    rwa [List.append_assoc] at noField

end ClassText

end MethodLines

/-- A fresh class with what was written in it. The lines behind the constructor go on to
    the next class. -/
structure Grown (c : ClassText) where
  extended : Bool
  forms : Option CtorForms
  indent : Text
  tail : List Text
  isIndent : IsIndent indent
  calm : Calm c.name false tail

namespace Grown

variable {c : ClassText} (g : Grown c)

/-- The lines of the constructor, if there is one. -/
def ctor : Option (List Text) :=
  c.oldCtor g.forms g.indent

/-- The header, the fields and the constructor. -/
def front : List Text :=
  headerLine c.name g.extended :: (c.fields.map (·.line) ++ ctorPart g.ctor)

def lines : List Text :=
  g.front ++ g.tail

/-- What is read from the class when some of its lines behind the constructor belong to it. -/
def decl (lineNo : Nat) (taken : List Text) (lastLine : Option Nat) : ClassDecl :=
  { (c.behindCtor g.extended g.ctor lineNo).decl with lines := g.front ++ taken, lastLine }

/-! ## Reading -/

theorem isCtor_ctor {ls : List Text} (h : g.ctor = some ls) : IsCtor c.name ls := by
  obtain ⟨forms, -, rfl⟩ := Option.map_eq_some_iff.mp h
  exact c.isCtor_ctorLines forms g.isIndent

/-- The class is read back, up to the next one. -/
theorem scanFrom_lines (lineNo : Nat) (previous : Text) {rest : List Text}
    (ends : ∀ line more, rest = line :: more → Header.isHeader line) :
    ∃ taken beyond lastLine before, g.tail = taken ++ beyond ∧
      Closes (lineNo + g.front.length) taken lastLine ∧
      scanFrom lineNo previous none (g.lines ++ rest) =
        g.decl lineNo taken lastLine :: scanFrom (lineNo + g.lines.length) before none rest := by
  have ctorLines : ∀ ls, g.ctor = some ls → IsCtor c.name ls := fun _ => g.isCtor_ctor
  have shown : (c.behindCtor g.extended g.ctor lineNo).decl.header.isState = false :=
    isState_headerParts c.name g.extended
  obtain ⟨taken, beyond, lastLine, before, split, closes, scanned⟩ :=
    scanFrom_calm g.calm (o := c.behindCtor g.extended g.ctor lineNo) nofun Int.le_rfl rfl
      (c.complete_behindCtor g.extended g.ctor lineNo) rfl rfl shown ends
  have count : lineNo + 1 + (c.fields.map (·.line) ++ ctorPart g.ctor).length =
      lineNo + g.front.length := by
    rw [front, List.length_cons]
    omega
  refine ⟨taken, beyond, lastLine, before, split, count ▸ closes, ?_⟩
  have total : lineNo + 1 + (c.fields.map (·.line) ++ ctorPart g.ctor).length + g.tail.length =
      lineNo + g.lines.length := by
    rw [count, lines, List.length_append, Nat.add_assoc]
  rw [← total, lines, List.append_assoc, front, c.scanFrom_behindCtor ctorLines, scanned]
  rfl

theorem shows_decl (lineNo : Nat) (taken : List Text) (lastLine : Option Nat) :
    c.Shows g.forms g.indent (g.decl lineNo taken lastLine) :=
  ⟨⟨g.extended, rfl⟩, unplaced_placed c.fields (lineNo + 1),
    c.showsCtor_readCtor g.forms g.indent _⟩

/-! ## Members -/

/-- The first line of a constructor is like no method: only a copy has the same mark behind
    its word, and its word is longer. -/
theorem unlike_opening {kind : MemberKind} (method : kind ≠ .constructor) :
    ¬ Like c.name kind (c.name ++ "(\x7b".toList) := by
  have ink : Text.ink (c.name ++ "(\x7b".toList) = c.name ++ '(' :: "\x7b".toList := by
    rw [Text.ink_append, c.isIdentifier.ink]
    rfl
  by_cases hash : kind = .hashCode
  · obtain ⟨d, rest, same, upper⟩ := c.upper
    rw [hash, Like, ink, same]
    rintro starts
    have : 'i' = d := (List.cons_prefix_cons.mp starts).1
    subst this
    exact absurd upper (by decide)
  · rw [like_iff c.plainName method hash c.plainName (by decide) ink]
    rintro ⟨word, starts⟩
    cases kind with
    | constructor => exact method rfl
    | hashCode => exact hash rfl
    | copyWith =>
        have longer : c.name ++ "copyWith".toList = c.name := word
        exact absurd (List.append_right_eq_self.mp longer) (by decide)
    | toMap | fromMap | fromJson | equality | props =>
        exact absurd (List.cons_prefix_cons.mp starts).1 (by decide)
    | toJson | toString =>
        exact absurd (List.cons_prefix_cons.mp (List.cons_prefix_cons.mp starts).2).1 (by decide)

theorem unlike_ctorLines {indent : Text} (ind : IsIndent indent) (forms : CtorForms)
    {kind : MemberKind} (method : kind ≠ .constructor) :
    ∀ line ∈ c.ctorLines forms indent, ¬ Like c.name kind line := by
  intro line member
  simp only [ClassText.ctorLines, List.mem_cons, List.mem_append, List.mem_map, List.not_mem_nil,
    or_false] at member
  rcases member with rfl | ⟨f, -, rfl⟩ | rfl
  · rw [like_indent ind]
    exact unlike_opening method
  · have heads : ∀ front ∈ ParamForm.fronts, ∃ d more, front = d :: more ∧ d.isUpper = false ∧
        d ∉ ['f', 'b', 'i'] ∧ isBlank d = false := by
      intro front known
      simp only [ParamForm.fronts, List.mem_cons, List.not_mem_nil, or_false] at known
      rcases known with rfl | rfl | rfl <;> exact ⟨_, _, rfl, by decide, by decide, by decide⟩
    obtain ⟨d, more, same, low, foreign, solid⟩ := heads _ (forms.form f).front_mem
    rw [like_indent ind, like_indent ind, FieldText.param, ParamForm.text_eq, same,
      List.cons_append, List.cons_append]
    exact unlike_of_head c.upper method low foreign solid
  · rw [like_indent ind]
    exact unlike_of_head c.upper method (by decide) (by decide) (by decide)

theorem unlike_front {kind : MemberKind} (method : kind ≠ .constructor) :
    ∀ line ∈ g.front, ¬ Like c.name kind line := by
  intro line member
  simp only [front, List.mem_cons, List.mem_append, List.mem_map] at member
  rcases member with rfl | ⟨f, -, rfl⟩ | member
  · exact unlike_of_head (c := 'c') c.upper method (by decide) (by decide) (by decide)
  · have ink : Text.ink f.line = 'f' :: 'i' :: Text.ink
        ("nal ".toList ++ (f.type.text ++ (' ' :: (f.name ++ [';'])))) := by
      rw [f.line_eq, f.declaration_eq, Text.ink_cons_of_blank (by decide),
        Text.ink_cons_of_blank (by decide)]
      exact (Text.ink_cons (by decide) _).trans (congrArg ('f' :: ·) (Text.ink_cons (by decide) _))
    exact unlike_of_keyword c.upper method ink (.inl ⟨rfl, rfl⟩)
  · cases written : g.ctor with
    | none => simp [written, ctorPart] at member
    | some ls =>
        obtain ⟨forms, -, rfl⟩ := Option.map_eq_some_iff.mp written
        rw [written, ctorPart] at member
        rcases List.mem_cons.mp member with rfl | member
        · exact unlike_nil c.upper method rfl
        · exact unlike_ctorLines g.isIndent forms method line member

/-! ## Writing -/

structure ReplacesCtor (lineNo : Nat) (r : Replacement) : Prop where
  written : g.forms ≠ none
  first : r.span.first = lineNo + c.fields.length + 2
  last : r.span.last + 1 = lineNo + g.front.length
  text : ∃ forms indent, IsIndent indent ∧ r.text = Text.unlines (c.ctorLines forms indent)

/-- A replacement of a member behind the constructor. -/
structure ReplacesMember (lineNo : Nat) (taken : List Text) (r : Replacement) : Prop where
  first : lineNo + g.front.length ≤ r.span.first
  ends : r.span.EndsIn (lineNo + g.front.length) taken
  calm : Calm c.name false r.text.lines

/-- What can be pending for a class that has grown. -/
structure Pending (lineNo : Nat) (taken : List Text) (d : Draft) : Prop where
  lines : d.decl.lines = g.front ++ taken
  firstLine : d.decl.firstLine = lineNo
  lastField : d.decl.lastFieldLine? = some (lineNo + c.fields.length)
  header : ∃ extended, (if d.headerChanged then d.decl.header.render (headerLine c.name g.extended)
    else headerLine c.name g.extended) = headerLine c.name extended
  replaces : ∀ r ∈ d.replacements, g.ReplacesCtor lineNo r ∨ g.ReplacesMember lineNo taken r
  inserted : d.inserted = [] ∨ g.forms = none ∧
    ∃ forms indent, IsIndent indent ∧ d.inserted = '\n' :: Text.unlines (c.ctorLines forms indent)
  appended : d.appended ≠ [] → Calm c.name false d.appended.lines

namespace Pending

variable {g} {lineNo : Nat} {taken : List Text} {d : Draft}

theorem length_front : g.front.length = 1 + c.fields.length + (ctorPart g.ctor).length := by
  rw [front, List.length_cons, List.length_append, List.length_map]
  omega

theorem insertedAfter_eq_nil (h : g.Pending lineNo taken d) {i : Nat}
    (other : i ≠ lineNo + c.fields.length) :
    d.insertedAfter i = [] := by
  rw [Draft.insertedAfter, h.lastField, if_neg]
  simp only [Bool.and_eq_true, beq_iff_eq, Option.some.injEq, not_and]
  exact fun _ same => other same.symm

theorem covers_iff (h : g.Pending lineNo taken d) {r : Replacement} (member : r ∈ d.replacements)
    {i : Nat} (high : i < lineNo + g.front.length) :
    r.span.covers i ↔ g.ReplacesCtor lineNo r ∧ lineNo + c.fields.length + 2 ≤ i := by
  simp only [Span.covers, Bool.and_eq_true, decide_eq_true_eq]
  constructor
  · rintro ⟨first, last⟩
    rcases h.replaces r member with ctor | method
    · exact ⟨ctor, by rw [← ctor.first]; exact first⟩
    · have := method.first
      omega
  · rintro ⟨ctor, low⟩
    have first := ctor.first
    have last := ctor.last
    omega

theorem replacementAt?_eq_none (h : g.Pending lineNo taken d) {i : Nat}
    (low : i < lineNo + c.fields.length + 2) (high : i < lineNo + g.front.length) :
    d.replacementAt? i = none := by
  rw [Draft.replacementAt?, List.find?_eq_none]
  intro r member covers
  have := ((h.covers_iff member high).mp covers).2
  omega

theorem replacementAt?_congr (h : g.Pending lineNo taken d) {i j : Nat}
    (low : lineNo + c.fields.length + 2 ≤ i) (high : i < lineNo + g.front.length)
    (lowJ : lineNo + c.fields.length + 2 ≤ j) (highJ : j < lineNo + g.front.length) :
    d.replacementAt? i = d.replacementAt? j := by
  refine List.find?_congr fun r member => ?_
  rw [Bool.eq_iff_iff, h.covers_iff member high, h.covers_iff member highJ]
  simp [low, lowJ]

theorem exists_last :
    ∃ (front : List FieldText) (last : FieldText), c.fields = front ++ [last] := by
  rcases List.eq_nil_or_concat c.fields with none | ⟨front, last, same⟩
  · exact absurd none c.nonempty
  · exact ⟨front, last, by rw [same, List.concat_eq_append]⟩

/-- The fields stay, and a new constructor goes behind them. -/
theorem bodyTexts_fields (h : g.Pending lineNo taken d) {rest : List Text} (below : rest ≠ []) :
    d.bodyTexts [] (lineNo + 1) (c.fields.map (·.line) ++ rest) =
      c.fields.map (·.line) ++ (d.insertedAfter (lineNo + c.fields.length) ++
        d.bodyTexts [] (lineNo + 1 + c.fields.length) rest) := by
  obtain ⟨others, last, same⟩ := @exists_last c
  have count := congrArg List.length same
  rw [List.length_append, List.length_singleton] at count
  have size := @length_front c g
  have uncovered : ∀ i, lineNo + 1 ≤ i → i ≤ lineNo + 1 + (others.map (·.line)).length →
      d.replacementAt? i = none := by
    intro i low high
    rw [List.length_map] at high
    exact h.replacementAt?_eq_none (by omega) (by omega)
  have nothing : ∀ i, lineNo + 1 ≤ i → i < lineNo + 1 + (others.map (·.line)).length →
      d.insertedAfter i = [] := by
    intro i low high
    rw [List.length_map] at high
    exact h.insertedAfter_eq_nil (by omega)
  have texts : d.bodyTexts [] (lineNo + 1) (others.map (·.line) ++ last.line :: rest) = _ :=
    Draft.bodyTexts_inserted below uncovered nothing
  rw [List.length_map, show lineNo + 1 + others.length = lineNo + c.fields.length by omega,
    show lineNo + c.fields.length + 1 = lineNo + 1 + c.fields.length by omega] at texts
  rw [same, List.map_append, List.map_singleton, List.append_assoc, List.singleton_append, ← same,
    texts]
  simp only [List.append_assoc, List.singleton_append]

/-- The texts of the constructor that may be there: it stays, or another takes its place. -/
theorem bodyTexts_ctor (h : g.Pending lineNo taken d) {forms : CtorForms}
    (written : g.forms = some forms) (below : taken ≠ []) :
    ∃ forms indent before, IsIndent indent ∧
      (d.bodyTexts [] (lineNo + 1 + c.fields.length) (ctorPart g.ctor ++ taken)).flatMap
        Text.lines =
        [] :: c.ctorLines forms indent ++
          (d.bodyTexts before (lineNo + g.front.length) taken).flatMap Text.lines := by
  have ctor : g.ctor = some (c.ctorLines forms g.indent) := by
    rw [Grown.ctor, ClassText.oldCtor, written]; rfl
  have size : g.front.length = c.fields.length + 2 + (c.ctorLines forms g.indent).length := by
    rw [length_front, ctor, ctorPart, List.length_cons]
    omega
  have nothing : ∀ i, lineNo + 1 + c.fields.length ≤ i → d.insertedAfter i = [] :=
    fun i low => h.insertedAfter_eq_nil (by omega)
  have blank : d.bodyTexts [] (lineNo + 1 + c.fields.length)
      ([[]] ++ (c.ctorLines forms g.indent ++ taken)) =
      [[]] ++ d.bodyTexts [] (lineNo + 1 + c.fields.length + 1)
        (c.ctorLines forms g.indent ++ taken) := by
    refine Draft.bodyTexts_free (by simp [below]) fun i low high => ⟨?_, nothing i low⟩
    rw [List.length_singleton] at high
    exact h.replacementAt?_eq_none (by omega) (by omega)
  have place : lineNo + 1 + c.fields.length + 1 = lineNo + c.fields.length + 2 := by omega
  have behind : lineNo + c.fields.length + 2 + (c.ctorLines forms g.indent).length =
      lineNo + g.front.length := by omega
  have nonempty : 0 < (c.ctorLines forms g.indent).length := by simp [ClassText.ctorLines]
  have whole : ctorPart g.ctor ++ taken = [[]] ++ (c.ctorLines forms g.indent ++ taken) := by
    rw [ctor]
    rfl
  rw [whole, blank, place]
  cases found : d.replacementAt? (lineNo + c.fields.length + 2) with
  | none =>
      have stays : d.bodyTexts [] (lineNo + c.fields.length + 2)
          (c.ctorLines forms g.indent ++ taken) = _ :=
        Draft.bodyTexts_free below fun i low high =>
          ⟨(h.replacementAt?_congr low (by omega) (Nat.le_refl _) (by omega)).trans found,
            nothing i (by omega)⟩
      refine ⟨forms, g.indent, [], g.isIndent, ?_⟩
      rw [stays, behind, List.flatMap_append, List.flatMap_append,
        Text.flatMap_lines_of_notMem (c.notMem_ctorLines forms g.isIndent (by decide))]
      rfl
  | some r =>
      obtain ⟨member, first, last⟩ := Draft.covers_of_replacementAt? found
      have covers : r.span.covers (lineNo + c.fields.length + 2) := by
        simp [Span.covers, first, last]
      obtain ⟨other, indent, ind, text⟩ := ((h.covers_iff member (by omega)).mp covers).1.text
      obtain ⟨line, more, split⟩ : ∃ line more, c.ctorLines forms g.indent = line :: more :=
        ⟨_, _, rfl⟩
      rw [split] at behind ⊢
      have goes : d.bodyTexts [] (lineNo + c.fields.length + 2) (line :: more ++ taken) = _ :=
        Draft.bodyTexts_replaced fun i low high =>
          ⟨(h.replacementAt?_congr low (by omega) (Nat.le_refl _) (by omega)).trans found,
            nothing i (by omega)⟩
      have lines : r.text.lines = c.ctorLines other indent := by
        rw [text, c.lines_unlines_ctorLines other ind]
      refine ⟨other, indent, [r.text], ind, ?_⟩
      rw [goes, behind, List.singleton_append, List.flatMap_cons, List.flatMap_cons, lines]
      rfl

/-- What is written back for the lines below the header, up to the constructor. -/
theorem bodyTexts_front (h : g.Pending lineNo taken d) (below : taken ≠ []) :
    ∃ forms indent before, IsIndent indent ∧
      (d.bodyTexts [] (lineNo + 1) (c.fields.map (·.line) ++ ctorPart g.ctor ++ taken)).flatMap
        Text.lines =
        c.fields.map (·.line) ++ ctorPart (c.oldCtor forms indent) ++
          (d.bodyTexts before (lineNo + g.front.length) taken).flatMap Text.lines := by
  have fields : (c.fields.map (·.line)).flatMap Text.lines = c.fields.map (·.line) := by
    apply Text.flatMap_lines_of_notMem
    intro line member
    obtain ⟨f, -, rfl⟩ := List.mem_map.mp member
    exact f.notMem_line (by decide) (by decide)
  rw [List.append_assoc, h.bodyTexts_fields (by simp [below]), List.flatMap_append, fields,
    List.flatMap_append]
  cases written : g.forms with
  | none =>
      have ctor : g.ctor = none := by rw [Grown.ctor, ClassText.oldCtor, written]; rfl
      have place : lineNo + 1 + c.fields.length = lineNo + g.front.length := by
        rw [length_front, ctor, ctorPart, List.length_nil]
        omega
      rw [ctor, ctorPart, List.nil_append, place]
      rcases h.inserted with nothing | ⟨-, forms, indent, ind, inserted⟩
      · refine ⟨none, [], [], ⟨rfl, rfl⟩, ?_⟩
        rw [Draft.insertedAfter_eq_nil nothing]
        simp [ClassText.oldCtor, ctorPart]
      · have here : d.insertedAfter (lineNo + c.fields.length) = [d.inserted] := by
          rw [Draft.insertedAfter, h.lastField, if_pos]
          simp [inserted]
        have lines : d.inserted.lines = [] :: c.ctorLines forms indent := by
          rw [inserted, Text.lines_cons_feed, c.lines_unlines_ctorLines forms ind]
        refine ⟨some forms, indent, [], ind, ?_⟩
        rw [here, List.flatMap_singleton, lines]
        simp [ClassText.oldCtor, ctorPart]
  | some forms =>
      have nothing : d.inserted = [] := by
        rcases h.inserted with nothing | ⟨none, -⟩
        · exact nothing
        · rw [written] at none
          cases none
      obtain ⟨other, indent, before, ind, texts⟩ := h.bodyTexts_ctor written below
      refine ⟨some other, indent, before, ind, ?_⟩
      rw [Draft.insertedAfter_eq_nil nothing, List.flatMap_nil, List.nil_append, texts]
      simp [ClassText.oldCtor, ctorPart]

/-- What is written back is a grown class again. -/
theorem render_grown (h : g.Pending lineNo taken d) {inner beyond : List Text} {closing : Text}
    (split : g.tail = inner ++ closing :: beyond) (last : taken = inner ++ [closing])
    (closes : Line.braces closing = -1) (whole : ∀ line ∈ taken, '\n' ∉ line) :
    ∃ g' : Grown c, d.render.lines ++ beyond = g'.lines := by
  obtain ⟨extended, header⟩ := h.header
  obtain ⟨forms, indent, before, ind, texts⟩ := h.bodyTexts_front (by rw [last]; simp)
  have calm : Calm c.name false (inner ++ closing :: beyond) := split ▸ g.calm
  have each : d.CalmFrom c.name (lineNo + g.front.length) (inner ++ [closing]) := by
    intro r member reaches
    rcases h.replaces r member with ctor | method
    · have := ctor.last
      omega
    · exact ⟨method.calm, last ▸ method.ends⟩
  have skips : ∀ i, lineNo + g.front.length ≤ i → d.insertedAfter i = [] := by
    intro i low
    rw [length_front] at low
    exact h.insertedAfter_eq_nil (by omega)
  have body : Calm c.name false
      ((d.bodyTexts before (lineNo + g.front.length) (inner ++ [closing])).flatMap
        Text.lines ++ beyond) :=
    Draft.calm_bodyTexts calm closes (last ▸ whole) h.appended each skips fun _ same => same
  refine ⟨⟨extended, forms, indent, _, ind, body⟩, ?_⟩
  have own : (headerLine c.name extended).lines = [headerLine c.name extended] :=
    Text.lines_of_notMem (notMem_headerLine c.isIdentifier extended (by decide) (by decide))
  have nonempty : c.fields.length ≠ 0 := by simpa using c.nonempty
  have lines : d.decl.lines =
      headerLine c.name g.extended :: (c.fields.map (·.line) ++ ctorPart g.ctor ++ taken) := h.lines
  rw [Draft.render, lines]
  dsimp only
  rw [header, h.firstLine, h.insertedAfter_eq_nil (by omega), List.nil_append,
    Text.lines_unlines_flatMap (by simp), List.flatMap_cons, own, texts, last]
  simp only [Grown.lines, front, ctor, List.append_assoc, List.cons_append, List.nil_append]

end Pending

end Grown

end ValueClass.Fresh
