import ValueClass.Member.Parameters
import ValueClass.Proofs.Dart.FieldShape
import ValueClass.Proofs.Dart.TopLevel

/-! # Lines that go on

A declaration may run over several lines. The scanner knows nothing of that: a line is
read as a field when it stands at the top of the class, outside the constructor, and its
own text shows a declaration. `Held.fields` says so for every class, in both directions,
and `takesField_iff_declaresOn` puts it in terms of the lines alone. So the fields of a
class all start a statement exactly when none of the lines that go on with one shows a
declaration by itself.
-/

namespace ValueClass.Dart

/-! ## Statements over several lines -/

namespace Line

/-- What a line shows outside block comments and before a line comment, `depth` block
    comments being open at its start, and how many are open behind it. -/
def uncommented : Nat → Text → Text × Nat
  | depth, [] => ([], depth)
  | 0, '/' :: '/' :: _ => ([], 0)
  | depth, '/' :: '*' :: rest => uncommented (depth + 1) rest
  | depth + 1, '*' :: '/' :: rest => uncommented depth rest
  | 0, c :: rest =>
    let (shown, behind) := uncommented 0 rest
    (c :: shown, behind)
  | depth + 1, _ :: rest => uncommented (depth + 1) rest

/-- The text behind the annotation at the front of a text, and behind the blanks that
    follow it. -/
def afterAnnotation? : Text → Option Text
  | '@' :: rest =>
    match rest.dropWhile fun c => isWordChar c || c == '.' with
    | '(' :: arguments => (CtorParts.cutAtClose 1 arguments).map fun (_, after) =>
      Text.trimStart after
    | after => some (Text.trimStart after)
  | _ => none

/-- Whether what a line shows is blank, or annotations and nothing else. -/
def isBare (shown : Text) : Bool :=
  (Header.skipAll afterAnnotation? shown.length shown.trim).isEmpty

def shownFrom : Nat → List Text → List Text
  | _, [] => []
  | depth, line :: rest =>
    let (shown, behind) := uncommented depth (blankStrings line)
    shown :: shownFrom behind rest

/-- Whether a statement or a body ends with a line, or a body starts with it. -/
def endsStatement (line : Text) : Bool :=
  ["\x7b", "\x7d", ";"].any fun mark => (code line).endsWith mark

end Line

/-- Whether a line of a class starts a statement: the nearest line above it that is not
    blank and holds more than comments and annotations ends one, or opens a body. -/
def ClassDecl.startsStatement (c : ClassDecl) (lineNo : Nat) : Bool :=
  let above := (c.lines.zip (Line.shownFrom 0 c.lines)).take (lineNo - c.firstLine)
  (above.reverse.find? fun (_, shown) => !Line.isBare shown).any fun (line, _) =>
    Line.endsStatement line

/-! ## Lines that are read as fields -/

namespace OpenClass

/-- The last line that was read is taken for a field: one brace and no parenthesis is
    open behind it, the constructor was complete above it, and it looks like a
    declaration. -/
structure TakesField (o : OpenClass) (lineNo : Nat) (line : Text) : Prop where
  top : o.braces = 1 ∧ o.parens = 0
  outside : ∀ ctor, o.decl.ctor = some ctor → ∃ last, ctor.lastLine = some last ∧ last < lineNo
  shows : Line.ShowsField line o.decl.name

variable {o : OpenClass} {lineNo : Nat} {previous line : Text}

/-- A line outside the constructor is added to the fields when it looks like one. -/
theorem addField_fields
    (idle : ∀ ctor, o.decl.ctor = some ctor → ∃ last, ctor.lastLine = some last ∧ last < lineNo) :
    (∃ f, (o.addField lineNo previous line).decl.fields = o.decl.fields ++ [f] ∧ f.line = lineNo ∧
        (o.addField lineNo previous line).TakesField lineNo line) ∨
      (o.addField lineNo previous line).decl.fields = o.decl.fields ∧
        ¬ (o.addField lineNo previous line).TakesField lineNo line := by
  rw [addField]
  split
  · rename_i top
    simp only [Bool.and_eq_true, beq_iff_eq] at top
    obtain ⟨depth, look⟩ := top
    have shows := Line.showsField_iff line o.decl.name lineNo previous
    split
    · rename_i f found
      rw [found] at shows
      exact .inl ⟨f, rfl, Line.line_of_field? found, depth, idle, shows.mp ⟨look, rfl⟩⟩
    · rename_i none
      rw [none] at shows
      refine .inr ⟨rfl, fun takes => ?_⟩
      cases (shows.mpr takes.shows).2
  · rename_i other
    refine .inr ⟨rfl, fun takes => other ?_⟩
    simp [takes.top, ((Line.showsField_iff line o.decl.name lineNo previous).mpr takes.shows).1]

/-- A line that is read becomes a field exactly when it is taken for one. -/
theorem readLine_fields (previous line : Text)
    (idle : ∀ ctor last, o.decl.ctor = some ctor → ctor.lastLine = some last → last < lineNo) :
    (∃ f, (o.readLine lineNo previous line).decl.fields = o.decl.fields ++ [f] ∧ f.line = lineNo ∧
        (o.readLine lineNo previous line).TakesField lineNo line) ∨
      (o.readLine lineNo previous line).decl.fields = o.decl.fields ∧
        ¬ (o.readLine lineNo previous line).TakesField lineNo line := by
  have fields : ((o.count line).startConstructor o.braces lineNo line).decl.fields =
      o.decl.fields := by
    rw [startConstructor]
    split <;> rfl
  have ctor : ((o.count line).startConstructor o.braces lineNo line).decl.ctor = o.decl.ctor ∨
      ((o.count line).startConstructor o.braces lineNo line).inConstructor := by
    rw [startConstructor]
    split
    · exact .inr rfl
    · exact .inl rfl
  rw [readLine]
  generalize (o.count line).startConstructor o.braces lineNo line = next at fields ctor ⊢
  rw [← fields]
  split
  · -- the line belongs to the constructor, which is not complete above it
    rename_i inside
    rw [inConstructor] at inside
    cases found : next.decl.ctor with
    | none => simp [found] at inside
    | some old =>
        refine .inr ⟨by simp [extendConstructor, found], fun takes => ?_⟩
        rw [extendConstructor, found] at takes
        obtain ⟨last, ending, above⟩ := takes.outside _ rfl
        have here := extendConstructor_last _ ending
        omega
  · rename_i outside
    apply addField_fields
    intro complete found
    rcases ctor with same | inside
    · rw [inConstructor, found] at outside
      cases ending : complete.lastLine with
      | none => simp [ending] at outside
      | some last => exact ⟨last, rfl, idle complete last (same ▸ found) ending⟩
    · exact absurd inside outside

end OpenClass

namespace Held

variable {buffer : List Text} {n : Nat} {o : OpenClass}

theorem exists_takesField_iff {first : Nat} {line : Text} (now : Held buffer (n + 1) o)
    (low : first < n + 1) (here : buffer[n]? = some line) :
    (∃ p other, first < n + 1 ∧ n + 1 ≤ n + 1 ∧ Held buffer (n + 1) p ∧
      buffer[n + 1 - 1]? = some other ∧
      p.TakesField (n + 1) other) ↔ o.TakesField (n + 1) line := by
  constructor
  · rintro ⟨p, other, -, -, held, here', takes⟩
    rw [Nat.add_sub_cancel, here] at here'
    cases here'
    rwa [now.unique held]
  · intro takes
    exact ⟨o, line, low, Nat.le_refl _, now, here, takes⟩

/-- The fields of the class stand on the lines that were taken for fields. -/
theorem fields (held : Held buffer n o) (lineNo : Nat) :
    (∃ f ∈ o.decl.fields, f.line = lineNo) ↔
      ∃ p line, o.decl.firstLine < lineNo ∧ lineNo ≤ n ∧ Held buffer lineNo p ∧
        buffer[lineNo - 1]? = some line ∧
        p.TakesField lineNo line := by
  induction held generalizing lineNo with
  | header =>
      constructor
      · rintro ⟨f, member, -⟩
        cases member
      · rintro ⟨p, line, low, high, -⟩
        exact absurd (Nat.lt_of_lt_of_le low high) (Nat.lt_irrefl _)
  | @body n line o held open_ here body ih =>
      have now := Held.body held open_ here body
      have first := held.firstLine_pos
      rw [OpenClass.readLine_firstLine]
      have above : ∀ f ∈ o.decl.fields, f.line ≤ n := by
        intro f member
        obtain ⟨-, -, -, high, -⟩ := (ih f.line).mp ⟨f, member, rfl⟩
        exact high
      by_cases last : lineNo = n + 1
      · subst last
        rw [now.exists_takesField_iff (by omega) here]
        rcases OpenClass.readLine_fields (lineAbove buffer (n + 1)) line
          fun ctor last found complete => Nat.lt_succ_of_le (held.ctor_le found complete) with
          ⟨f, fields, place, takes⟩ | ⟨fields, passes⟩
        · rw [fields]
          exact ⟨fun _ => takes, fun _ => ⟨f, by simp, place⟩⟩
        · rw [fields]
          refine ⟨?_, fun takes => absurd takes passes⟩
          rintro ⟨f, member, place⟩
          have := above f member
          omega
      · have earlier : (∃ p other, o.decl.firstLine < lineNo ∧ lineNo ≤ n + 1 ∧
          Held buffer lineNo p ∧
            buffer[lineNo - 1]? = some other ∧ p.TakesField lineNo other) ↔
              ∃ f ∈ o.decl.fields, f.line = lineNo := by
          rw [ih lineNo]
          refine exists₂_congr fun p other => ?_
          rw [show lineNo ≤ n + 1 ↔ lineNo ≤ n by omega]
        rw [earlier]
        rcases OpenClass.readLine_fields (lineAbove buffer (n + 1)) line
          fun ctor last found complete => Nat.lt_succ_of_le (held.ctor_le found complete) with
          ⟨f, fields, place, -⟩ | ⟨fields, -⟩
        · rw [fields]
          constructor
          · rintro ⟨g, member, here⟩
            rcases List.mem_append.mp member with member | new
            · exact ⟨g, member, here⟩
            · obtain rfl := List.mem_singleton.mp new
              omega
          · rintro ⟨g, member, here⟩
            exact ⟨g, List.mem_append_left _ member, here⟩
        · rw [fields]

end Held

/-- Line `k` of a class, counted from its header, is taken for a field. -/
def ClassDecl.TakesField (text : Text) (c : ClassDecl) (k : Nat) : Prop :=
  0 < k ∧ ∃ o line, c.lines[k]? = some line ∧ Held text.lines (c.firstLine + k) o ∧
    o.TakesField (c.firstLine + k) line

theorem exists_field_iff {text : Text} {c : ClassDecl} (member : c ∈ scan text) (k : Nat) :
    (∃ f ∈ c.fields, f.line = c.firstLine + k) ↔ c.TakesField text k := by
  obtain ⟨n, o, held, reported⟩ := held_of_mem_scan member
  have same : c.firstLine = o.decl.firstLine ∧ c.lines = o.decl.lines ∧
      c.fields = o.decl.fields := by
    rcases reported with rfl | ⟨-, rfl⟩ <;> exact ⟨rfl, rfl, rfl⟩
  obtain ⟨first, lines, fields⟩ := same
  have place := held.place
  have low := held.firstLine_pos
  rw [fields, first, held.fields, ClassDecl.TakesField, lines, first]
  constructor
  · rintro ⟨p, line, below, within, held', here, takes⟩
    refine ⟨by omega, p, line, ?_, held', takes⟩
    rw [← held.line_eq (by omega),
      show o.decl.firstLine - 1 + k = o.decl.firstLine + k - 1 by omega, here]
  · rintro ⟨below, p, line, here, held', takes⟩
    obtain ⟨within, -⟩ := List.getElem?_eq_some_iff.mp here
    refine ⟨p, line, by omega, by omega, held', ?_, takes⟩
    rw [← here, ← held.line_eq within,
      show o.decl.firstLine - 1 + k = o.decl.firstLine + k - 1 by omega]

/-! ## Fields on lines that go on -/

namespace ClassDecl

/-- Line `k` of a class declares a field at the top of the class, counted from the header:
    behind it one brace and no parenthesis is open, it is no line of the constructor, and
    its own text shows a field. -/
structure DeclaresOn (c : ClassDecl) (k : Nat) : Prop where
  below : 0 < k
  top : Line.openBraces (c.lines.take (k + 1)) = 1 ∧ Line.openParens (c.lines.take (k + 1)) = 0
  outside : ¬ c.InConstructor k
  shows : ∃ line, c.lines[k]? = some line ∧ Line.ShowsField line c.name

/-- Line `k` of a class goes on with what stands above it. Up to some line all lines above
    it are blank, comments or annotations, and that line shows more and ends in no brace
    and no semicolon. -/
def GoesOn (c : ClassDecl) (k : Nat) : Prop :=
  ∃ above bare, (c.lines.zip (Line.shownFrom 0 c.lines)).take k = above ++ bare ∧
    (∀ line ∈ bare, Line.isBare line.2) ∧
    ∀ last, above.getLast? = some last → Line.isBare last.2 = false ∧
      Line.endsStatement last.1 = false

end ClassDecl

/-- The scanner takes a line for a field just when the line declares one. -/
theorem takesField_iff_declaresOn {text : Text} {c : ClassDecl} (member : c ∈ scan text) (k : Nat) :
    c.TakesField text k ↔ c.DeclaresOn k := by
  have agree : ∀ o, k < c.lines.length → Held text.lines (c.firstLine + k) o →
      o.decl.name = c.name ∧
      o.decl.lines = c.lines.take (k + 1) ∧ o.decl.firstLine = c.firstLine := by
    intro o within held
    obtain ⟨p, held', first, name, lines⟩ := held_behind member within
    rw [held.unique held']
    exact ⟨name, lines, first⟩
  have settled : ∀ o line, c.lines[k]? = some line → Held text.lines (c.firstLine + k) o →
      (o.TakesField (c.firstLine + k) line ↔
        (Line.openBraces (c.lines.take (k + 1)) = 1 ∧ Line.openParens (c.lines.take (k + 1)) = 0) ∧
          ¬ c.InConstructor k ∧ Line.ShowsField line c.name) := by
    intro o line here held
    have within := (List.getElem?_eq_some_iff.mp here).1
    obtain ⟨name, lines, first⟩ := agree o within held
    have size : o.decl.lines.length = k + 1 := by
      rw [lines, List.length_take, Nat.min_eq_left within]
    have shares : o.decl.Shares c (k + 1) := ⟨name, by rw [lines, List.take_take, Nat.min_self]⟩
    rw [← lines, ← held.depth.1, ← held.depth.2, ← ClassDecl.inConstructor_congr shares,
      ← (held.marks size).here, ← name]
    constructor
    · rintro ⟨top, outside, shows⟩
      refine ⟨top, ?_, shows⟩
      rintro ⟨ctor, found, last⟩
      obtain ⟨ending, complete, above⟩ := outside ctor found
      exact absurd (last ending complete) (Nat.ne_of_lt above)
    · rintro ⟨top, outside, shows⟩
      refine ⟨top, fun ctor found => ?_, shows⟩
      cases ending : ctor.lastLine with
      | none => exact absurd ⟨ctor, found, by simp [ending]⟩ outside
      | some last =>
          refine ⟨last, rfl, Nat.lt_of_le_of_ne (held.ctor_le found ending) fun here =>
            outside ⟨ctor, found, ?_⟩⟩
          rintro other same
          rw [ending] at same
          exact (Option.some.inj same).symm.trans here
  constructor
  · rintro ⟨below, o, line, here, held, takes⟩
    obtain ⟨top, outside, shows⟩ := (settled o line here held).mp takes
    exact ⟨below, top, outside, line, here, shows⟩
  · rintro ⟨below, top, outside, line, here, shows⟩
    obtain ⟨o, held, -⟩ := held_behind member (List.getElem?_eq_some_iff.mp here).1
    exact ⟨below, o, line, here, held, (settled o line here held).mpr ⟨top, outside, shows⟩⟩

/-- The last of a list that satisfies `p` fails `q` when a front of the list ends in such an
    element, and none behind it satisfies `p`. -/
theorem any_find?_reverse_eq_false {α : Type} (p q : α → Bool) (l : List α) :
    (l.reverse.find? p).any q = false ↔ ∃ above below, l = above ++ below ∧
    (∀ x ∈ below, p x = false) ∧
      ∀ last, above.getLast? = some last → p last ∧ q last = false := by
  constructor
  · intro fails
    cases found : l.reverse.find? p with
    | none => exact ⟨[], l, rfl, by simpa using found, by simp⟩
    | some x =>
        obtain ⟨holds, as, bs, split, others⟩ := List.find?_eq_some_iff_append.mp found
        refine ⟨bs.reverse ++ [x], as.reverse, ?_, by simpa using others, ?_⟩
        · rw [← List.reverse_reverse l, split]
          simp
        · intro last same
          rw [List.getLast?_concat] at same
          cases same
          rw [found] at fails
          exact ⟨holds, fails⟩
  · rintro ⟨above, below, rfl, others, ending⟩
    have passed : below.reverse.find? p = none := by simpa using others
    rw [List.reverse_append, List.find?_append, passed, Option.none_or]
    rcases List.eq_nil_or_concat' above with rfl | ⟨front, last, rfl⟩
    · rfl
    · obtain ⟨holds, fails⟩ := ending last List.getLast?_concat
      rw [List.reverse_append, List.reverse_singleton, List.singleton_append,
        List.find?_cons_of_pos holds]
      exact fails

theorem startsStatement_eq_false_iff (c : ClassDecl) (k : Nat) :
    c.startsStatement (c.firstLine + k) = false ↔ c.GoesOn k := by
  rw [ClassDecl.startsStatement, Nat.add_sub_cancel_left, any_find?_reverse_eq_false,
    ClassDecl.GoesOn]
  simp only [Bool.not_eq_false', Bool.not_eq_true']

/-- The fields of a class are declared on the lines whose text declares one, and they all
    start a statement exactly when no line that goes on with another declares one. -/
theorem fields_startStatement_iff (text : Text) : ∀ c ∈ scan text,
    (∀ k, (∃ f ∈ c.fields, f.line = c.firstLine + k) ↔ c.DeclaresOn k) ∧
      ((∀ f ∈ c.fields, c.startsStatement f.line) ↔ ∀ k, c.GoesOn k → ¬ c.DeclaresOn k) := by
  intro c member
  have declared : ∀ k, (∃ f ∈ c.fields, f.line = c.firstLine + k) ↔ c.DeclaresOn k := fun k =>
    (exists_field_iff member k).trans (takesField_iff_declaresOn member k)
  refine ⟨declared, ?_, ?_⟩
  · intro starts k goesOn declares
    obtain ⟨f, field, place⟩ := (declared k).mpr declares
    have here := starts f field
    rw [place, (startsStatement_eq_false_iff c k).mpr goesOn] at here
    cases here
  · intro clear f field
    have inside := (represents_of_mem_scan member).inside f field
    obtain ⟨k, place⟩ : ∃ k, f.line = c.firstLine + k := ⟨f.line - c.firstLine, by omega⟩
    rw [← Bool.not_eq_false, place, startsStatement_eq_false_iff]
    exact fun goesOn => clear k goesOn ((declared k).mp ⟨f, field, place⟩)

/-- The initializer list of a constructor goes on below its parameters and declares a field;
    behind its arrow on one line a getter does not. -/
theorem fields_startStatement_iff_initializer :
    let text (last : Text) : Text :=
      "class A \x7b\n final int x;\n final int y;\n A(this.x)" ++ last ++ "\n\x7d"
    let c (last : Text) (more : List Field) : ClassDecl :=
      { header := .parse "class A \x7b", firstLine := 1, lastLine := some 6,
        lines := (text last).lines
        fields :=
          { rawType := "int", key := "x", name := "x", line := 2 } ::
            { rawType := "int", key := "y", name := "y", line := 3 } :: more
        ctor := some { text :=
          ((text last).lines[3]?).getD [], firstLine := 4, lastLine := some 4 } }
    let split := c "\n : y = x;"
        [{ rawType := ":", key := "y", name := "y", line := 5, isFinal := false }]
    let whole := c " : y = 0;\n int get z => x;" []
    (split ∈ scan (text "\n : y = x;") ∧ ¬ split.isValid ∧ split.startsStatement 5 = false ∧
      split.GoesOn 4 ∧
      split.DeclaresOn 4) ∧
    (whole ∈ scan (text " : y = 0;\n int get z => x;") ∧ whole.isValid ∧
      ∀ k, whole.GoesOn k → ¬ whole.DeclaresOn k) := by
  intro text c split whole
  obtain ⟨⟨first, broken, behind⟩, second, valid, starts⟩ :
      (split ∈ scan (text "\n : y = x;") ∧ ¬ split.isValid ∧ split.startsStatement 5 = false) ∧
      whole ∈ scan (text " : y = 0;\n int get z => x;") ∧ whole.isValid ∧
        ∀ f ∈ whole.fields, whole.startsStatement f.line := by
    decide +kernel
  refine ⟨⟨first, broken, behind, ?_, ?_⟩, second, valid, ?_⟩
  · exact (startsStatement_eq_false_iff split 4).mp behind
  · exact ((fields_startStatement_iff _ split first).1 4).mp ⟨_,
      List.mem_of_getElem? (i := 2) rfl, rfl⟩
  · exact (fields_startStatement_iff _ whole second).2.mp starts

end ValueClass.Dart
