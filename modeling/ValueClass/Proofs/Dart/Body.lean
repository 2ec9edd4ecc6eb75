import ValueClass.Proofs.Dart.Placement

/-! # Where the parts of a class stand

A line that is read goes to the constructor, to the fields or to neither:
`readLine_cases` says this once. So the fields stand below each other inside the
class, and the text of the constructor is a run of its lines that no field
stands on.
-/

namespace ValueClass

/-- The lines of a buffer from one number to another, both counted from one. -/
def linesFrom (buffer : List Text) (first last : Nat) : List Text :=
  (buffer.take last).drop (first - 1)

theorem linesFrom_append {buffer : List Text} (more : List Text) {first last : Nat}
    (within : last ≤ buffer.length) :
    linesFrom (buffer ++ more) first last = linesFrom buffer first last := by
  rw [linesFrom, linesFrom, List.take_append_of_le_length within]

theorem linesFrom_concat {buffer : List Text} (line : Text) {first : Nat}
    (order : first ≤ buffer.length + 1) :
    linesFrom (buffer ++ [line]) first (buffer.length + 1) =
      linesFrom buffer first buffer.length ++ [line] := by
  have all : (buffer ++ [line]).take (buffer.length + 1) = buffer ++ [line] :=
    List.take_of_length_le (by simp)
  rw [linesFrom, linesFrom, all, List.take_length, List.drop_append_of_le_length (by omega)]

theorem linesFrom_ne_nil {buffer : List Text} {first last : Nat} (start : 1 ≤ first)
    (order : first ≤ last) (within : last ≤ buffer.length) : linesFrom buffer first last ≠ [] := by
  rw [← List.length_pos_iff, linesFrom, List.length_drop, List.length_take]
  omega

namespace Dart

theorem Line.line_of_field? {line previous : Text} {lineNo : Nat} {f : Field}
    (h : Line.field? line lineNo previous = some f) : f.line = lineNo := by
  simp only [Line.field?] at h
  split at h
  · cases h
    rfl
  · cases h

theorem Line.ne_nil_of_opensConstructor {line className : Text}
    (h : Line.opensConstructor line className) :
    line ≠ [] := by
  rintro rfl
  have nothing : Line.opensConstructor [] className =
      Text.startsWith [] (className ++ "(".toList) := rfl
  rw [nothing, Text.startsWith] at h
  cases className <;> simp at h

namespace OpenClass

variable {o : OpenClass} {lineNo : Nat} {previous line : Text}

/-- What a line does to the constructor and to the fields of an open class. -/
inductive Receives (o : OpenClass) (lineNo : Nat) (line : Text) (next : OpenClass) : Prop where
  /-- The line opens the constructor, and perhaps closes it as well. -/
  | opens (last : Option Nat) (missing : o.decl.ctor = none) (top : o.braces = 1)
      (opening : Line.opensConstructor line o.decl.name)
      (ending : last = if next.parens == 0 then some lineNo else none)
      (ctor : next.decl.ctor = some { text := line, firstLine := lineNo, lastLine := last })
      (fields : next.decl.fields = o.decl.fields)
  /-- The line belongs to the constructor that is being read. -/
  | continues (old : Constructor) (last : Option Nat) (found : o.decl.ctor = some old)
      (pending : old.lastLine = none) (ending : last = if next.parens == 0 then some lineNo
        else none)
      (ctor : next.decl.ctor = some { old with
        text := if old.text.isEmpty then line else old.text ++ "\n" ++ line
        lastLine := last })
      (fields : next.decl.fields = o.decl.fields)
  /-- The line declares a field. -/
  | declares (f : Field) (idle : ∀ ctor, o.decl.ctor = some ctor → ctor.lastLine ≠ none)
      (opening : ¬ (o.decl.ctor = none ∧ o.braces = 1 ∧ Line.opensConstructor line o.decl.name))
      (place : f.line = lineNo) (depth : next.braces = 1) (ctor : next.decl.ctor = o.decl.ctor)
      (fields : next.decl.fields = o.decl.fields ++ [f])
  /-- The line belongs to something else. -/
  | passes (idle : ∀ ctor, o.decl.ctor = some ctor → ctor.lastLine ≠ none)
      (opening : ¬ (o.decl.ctor = none ∧ o.braces = 1 ∧ Line.opensConstructor line o.decl.name))
      (ctor : next.decl.ctor = o.decl.ctor) (fields : next.decl.fields = o.decl.fields)

theorem readLine_header (o : OpenClass) (lineNo : Nat) (previous line : Text) :
    (o.readLine lineNo previous line).decl.header = o.decl.header := by
  have started : ∀ (o : OpenClass) (depth : Int),
      (o.startConstructor depth lineNo line).decl.header = o.decl.header := by
    intro o depth
    simp only [startConstructor]
    split <;> rfl
  simp only [readLine]
  split
  · simp only [extendConstructor]
    split <;> exact started _ _
  · simp only [OpenClass.addField]
    split
    · split <;> exact started _ _
    · exact started _ _

@[simp] theorem readLine_name (o : OpenClass) (lineNo : Nat) (previous line : Text) :
    (o.readLine lineNo previous line).decl.name = o.decl.name := by
  rw [ClassDecl.name, ClassDecl.name, readLine_header]

theorem extendConstructor_last (parens : Int) {n : Nat}
    (h : (if parens == 0 then some lineNo else none) = some n) : n = lineNo := by
  split at h
  · simpa using h.symm
  · cases h

theorem Receives.addField (idle : ∀ ctor, o.decl.ctor = some ctor → ctor.lastLine ≠ none)
    (opening : ¬ (o.decl.ctor = none ∧ o.braces = 1 ∧ Line.opensConstructor line o.decl.name)) :
    Receives o lineNo line ((o.count line).addField lineNo previous line) := by
  simp only [OpenClass.addField]
  split
  · rename_i top
    split
    · rename_i f found
      simp only [Bool.and_eq_true, beq_iff_eq] at top
      exact .declares f idle opening (Line.line_of_field? found) top.1.1 rfl rfl
    · exact .passes idle opening rfl rfl
  · exact .passes idle opening rfl rfl

theorem readLine_cases (o : OpenClass) (lineNo : Nat) (previous line : Text) :
    Receives o lineNo line (o.readLine lineNo previous line) := by
  have same : (o.count line).decl.ctor = o.decl.ctor := rfl
  cases found : o.decl.ctor with
  | none =>
      by_cases opens : o.braces = 1 ∧ Line.opensConstructor line o.decl.name
      · have start : (o.count line).startConstructor o.braces lineNo line =
            { o.count line with decl := { (o.count line).decl with
                ctor := some { text := [], firstLine := lineNo } } } := by
          have named : (o.count line).decl.name = o.decl.name := rfl
          simp [startConstructor, same, found, named, opens]
        rw [readLine, start]
        exact .opens _ found opens.1 opens.2 rfl rfl rfl
      · have stay : (o.count line).startConstructor o.braces lineNo line = o.count line := by
          have named : (o.count line).decl.name = o.decl.name := rfl
          simp only [startConstructor, same, found, named]
          rw [if_neg]
          simpa using opens
        rw [readLine, stay, inConstructor, same, found]
        exact .addField (by simp [found]) fun new => opens new.2
  | some old =>
      have stay : (o.count line).startConstructor o.braces lineNo line = o.count line := by
        simp [startConstructor, same, found]
      rw [readLine, stay, inConstructor, same, found]
      cases pending : old.lastLine with
      | none =>
          simp only [Option.map_some, pending, Option.isNone_none, Option.getD_some, ↓reduceIte]
          refine .continues old (if (o.count line).parens == 0 then some lineNo
            else none) found pending ?_ ?_ ?_
          all_goals simp [extendConstructor, found, count]
      | some last =>
          simp only [Option.map_some, pending, Option.isNone_some, Option.getD_some]
          exact .addField (by simp [found, pending]) (by simp [found])

end OpenClass

/-! ## The constructor -/

/-- The last line that belongs to a constructor when `read` lines were read. -/
def Constructor.reach (ctor : Constructor) (read : Nat) : Nat :=
  ctor.lastLine.getD read

/-- The text of a constructor is a run of lines inside its class, the first of which
    opens it, and no field stands on them. -/
structure Constructor.StandsIn (read : List Text) (c : ClassDecl) (ctor : Constructor) : Prop where
  below : c.firstLine < ctor.firstLine
  order : ctor.firstLine ≤ ctor.reach read.length
  within : ctor.reach read.length ≤ read.length
  text : ctor.text = Text.unlines (linesFrom read ctor.firstLine (ctor.reach read.length))
  opening : ∃ line more, linesFrom read ctor.firstLine (ctor.reach read.length) = line :: more ∧
    Line.opensConstructor line c.name
  apart : ∀ f ∈ c.fields, f.line < ctor.firstLine ∨ ctor.reach read.length < f.line

section Constructor

variable {read : List Text} {line : Text} {ctor : Constructor} {c d : ClassDecl}

theorem Constructor.reach_of_closing {last : Option Nat} {n : Nat}
    (closing : ∀ m, last = some m → m = n) (same : ctor.lastLine = last) : ctor.reach n = n := by
  rw [reach, same]
  cases last with
  | none => rfl
  | some m => exact closing m rfl

theorem Constructor.StandsIn.filled (h : ctor.StandsIn read c) : ctor.text ≠ [] := by
  obtain ⟨line, more, lines, opening⟩ := h.opening
  rw [h.text, lines]
  cases more with
  | nil => exact Line.ne_nil_of_opensConstructor opening
  | cons next rest => simp [Text.unlines_cons_cons]

theorem Constructor.StandsIn.opens (last : Option Nat) (opening : Line.opensConstructor line c.name)
    (closing : ∀ n, last = some n → n = read.length + 1) (below : c.firstLine < read.length + 1)
    (above : ∀ f ∈ c.fields, f.line ≤ read.length) :
    StandsIn (read ++ [line]) c
      { text := line, firstLine := read.length + 1, lastLine := last } := by
  have size : (read ++ [line]).length = read.length + 1 := by simp
  have reach := reach_of_closing closing
    (rfl : (Constructor.mk line (read.length + 1) last).lastLine = last)
  have lines : linesFrom (read ++ [line]) (read.length + 1) (read.length + 1) = [line] := by
    rw [linesFrom_concat line (Nat.le_refl _)]
    simp [linesFrom]
  refine ⟨below, ?_, ?_, ?_, ⟨line, [], ?_, opening⟩, ?_⟩
  · simp only [size, reach, Nat.le_refl]
  · simp only [size, reach, Nat.le_refl]
  · rw [size, reach, lines]
    rfl
  · rw [size, reach, lines]
  · intro f member
    exact .inl (Nat.lt_succ_of_le (above f member))

theorem Constructor.StandsIn.continues (h : ctor.StandsIn read c) (pending : ctor.lastLine = none)
    (last : Option Nat) (closing : ∀ n, last = some n → n = read.length + 1)
    (first : d.firstLine = c.firstLine) (name : d.name = c.name) (fields : d.fields = c.fields)
    (above : ∀ f ∈ c.fields, f.line ≤ read.length) :
    StandsIn (read ++ [line]) d { ctor with
      text := if ctor.text.isEmpty then line else ctor.text ++ "\n" ++ line
      lastLine := last } := by
  have size : (read ++ [line]).length = read.length + 1 := by simp
  have reach : Constructor.reach { ctor with
      text := if ctor.text.isEmpty then line else ctor.text ++ "\n" ++ line
      lastLine := last } (read.length + 1) = read.length + 1 := reach_of_closing closing rfl
  have before : ctor.reach read.length = read.length := by simp [Constructor.reach, pending]
  have order := h.order
  have below := h.below
  rw [before] at order
  refine ⟨by rw [first]; exact below, ?_, ?_, ?_, ?_, ?_⟩
  · rw [size, reach]
    exact Nat.le_succ_of_le order
  · simp only [size, reach, Nat.le_refl]
  · have old := h.text
    rw [before] at old
    have some : linesFrom read ctor.firstLine read.length ≠ [] :=
      linesFrom_ne_nil (by omega) order (Nat.le_refl _)
    rw [size, reach, linesFrom_concat line (Nat.le_succ_of_le order),
      Text.unlines_append some (by simp), ← old]
    simp [h.filled, Text.unlines_singleton]
  · obtain ⟨start, more, lines, opening⟩ := h.opening
    rw [before] at lines
    refine ⟨start, more ++ [line], ?_, name ▸ opening⟩
    rw [size, reach, linesFrom_concat line (Nat.le_succ_of_le order), lines, List.cons_append]
  · intro f member
    rw [fields] at member
    rcases h.apart f member with first | after
    · exact .inl first
    · rw [before] at after
      exact absurd (above f member) (by omega)

/-- A constructor that is complete stays where it is. -/
theorem Constructor.StandsIn.stays (h : ctor.StandsIn read c) (complete : ctor.lastLine ≠ none)
    (first : d.firstLine = c.firstLine) (name : d.name = c.name)
    (fields : ∀ f ∈ d.fields, f ∈ c.fields ∨ f.line = read.length + 1) :
    ctor.StandsIn (read ++ [line]) d := by
  obtain ⟨last, closed⟩ := Option.ne_none_iff_exists'.mp complete
  have reach : ∀ n, ctor.reach n = last := by simp [Constructor.reach, closed]
  obtain ⟨below, order, within, text, ⟨start, more, lines, opening⟩, apart⟩ := h
  rw [reach] at order within text lines
  refine ⟨by rw [first]; exact below, by rwa [reach], ?_, ?_, ⟨start, more, ?_, name ▸ opening⟩, ?_⟩
  · rw [reach, List.length_append, List.length_singleton]
    omega
  · rwa [reach, linesFrom_append [line] within]
  · rwa [reach, linesFrom_append [line] within]
  · intro f member
    rw [reach]
    rcases fields f member with old | new
    · simpa [reach] using apart f old
    · right
      omega

end Constructor

/-! ## The open class -/

/-- What is known of the parts of a class while its lines are read. Only a line that
    leaves one brace open declares a field, so no field stands on the line that closes
    the class. -/
structure OpenClass.Holds (read : List Text) (o : OpenClass) : Prop extends o.EndsAt read where
  ordered : (o.decl.fields.map (·.line)).Pairwise (· < ·)
  inside : ∀ f ∈ o.decl.fields, o.decl.firstLine < f.line ∧ f.line ≤ read.length
  depth : ∀ f ∈ o.decl.fields, f.line = read.length → o.braces = 1
  ctor : ∀ ctor, o.decl.ctor = some ctor → ctor.StandsIn read o.decl

namespace OpenClass

variable {read : List Text} {o next : OpenClass} {line : Text}

theorem Holds.start (read : List Text) {line : Text} (header : Header.isHeader line) :
    Holds (read ++ [line]) ((OpenClass.start (read.length + 1) line).count line) :=
  ⟨EndsAt.start read header, by simp [OpenClass.start, count], by simp [OpenClass.start, count],
    by simp [OpenClass.start, count], by simp [OpenClass.start, count]⟩

theorem Holds.firstLine_le (h : o.Holds read) : o.decl.firstLine ≤ read.length := by
  have place := h.lineNo
  obtain ⟨head, body, lines, -⟩ := h.header
  simp only [lines, List.length_cons] at place
  omega

theorem Holds.inside_append (h : o.Holds read) (line : Text) {f : Field}
    (member : f ∈ o.decl.fields) :
    o.decl.firstLine < f.line ∧ f.line ≤ (read ++ [line]).length ∧
      f.line ≠ (read ++ [line]).length := by
  obtain ⟨low, high⟩ := h.inside f member
  simp only [List.length_append, List.length_singleton]
  omega

theorem Holds.of_fields (h : o.Holds read) (ends : next.EndsAt (read ++ [line]))
    (first : next.decl.firstLine = o.decl.firstLine) (fields : next.decl.fields = o.decl.fields)
    (ctor : ∀ ctor, next.decl.ctor = some ctor → ctor.StandsIn (read ++ [line]) next.decl) :
    next.Holds (read ++ [line]) := by
  refine ⟨ends, ?_, ?_, ?_, ctor⟩
  · rw [fields]
    exact h.ordered
  · intro f member
    rw [fields] at member
    obtain ⟨low, high, -⟩ := h.inside_append line member
    exact ⟨first ▸ low, high⟩
  · intro f member last
    rw [fields] at member
    exact absurd last (h.inside_append line member).2.2

theorem Holds.readLine (h : o.Holds read) (previous line : Text) :
    (o.readLine (read.length + 1) previous line).Holds (read ++ [line]) := by
  have ends := h.toEndsAt.readLine (read.length + 1) previous line
  have first := readLine_firstLine o (read.length + 1) previous line
  have name := readLine_name o (read.length + 1) previous line
  have above : ∀ f ∈ o.decl.fields, f.line ≤ read.length := fun f member => (h.inside f member).2
  have begun := h.firstLine_le
  cases readLine_cases o (read.length + 1) previous line with
  | opens last none top opening ending ctor fields =>
      have closing : ∀ n, last = some n → n = read.length + 1 :=
        fun n done => extendConstructor_last _ (ending ▸ done)
      apply h.of_fields ends first fields
      intro new found
      rw [ctor] at found
      cases found
      exact .opens last (name.symm ▸ opening) closing (by rw [first]; omega)
        (by rw [fields]; exact above)
  | continues old last found pending ending ctor fields =>
      have closing : ∀ n, last = some n → n = read.length + 1 :=
        fun n done => extendConstructor_last _ (ending ▸ done)
      apply h.of_fields ends first fields
      intro new grown
      rw [ctor] at grown
      cases grown
      exact (h.ctor old found).continues pending last closing first name fields above
  | declares f idle opening place depth ctor fields =>
      refine ⟨ends, ?_, ?_, fun _ _ _ => depth, ?_⟩
      · rw [fields, List.map_append, List.pairwise_append]
        refine ⟨h.ordered, by simp, ?_⟩
        intro a old b new
        obtain ⟨g, member, rfl⟩ := List.mem_map.mp old
        simp only [List.map_cons, List.map_nil, List.mem_singleton] at new
        have := above g member
        omega
      · intro g member
        rw [fields, List.mem_append, List.mem_singleton] at member
        simp only [List.length_append, List.length_singleton, first]
        rcases member with old | rfl
        · have := h.inside g old
          omega
        · omega
      · intro complete found
        rw [ctor] at found
        refine (h.ctor complete found).stays (idle complete found) first name ?_
        intro g member
        rw [fields, List.mem_append, List.mem_singleton] at member
        rcases member with old | rfl
        · exact .inl old
        · exact .inr place
  | passes idle opening ctor fields =>
      apply h.of_fields ends first fields
      intro complete found
      rw [ctor] at found
      exact (h.ctor complete found).stays (idle complete found) first name
        fun f member => .inl (fields ▸ member)

end OpenClass

/-! ## The classes of a buffer -/

/-- What the numbers that a class carries say about a buffer. -/
structure ClassDecl.Represents (buffer : List Text) (c : ClassDecl) :
    Prop extends c.StandsIn buffer where
  ordered : (c.fields.map (·.line)).Pairwise (· < ·)
  inside : ∀ f ∈ c.fields, c.firstLine < f.line ∧ f.line < c.firstLine + c.lines.length
  above : ∀ last, c.lastLine = some last → ∀ f ∈ c.fields, f.line < last
  ctor : ∀ ctor last, c.ctor = some ctor → ctor.lastLine = some last →
    c.firstLine < ctor.firstLine ∧ ctor.firstLine ≤ last ∧ last < c.firstLine + c.lines.length ∧
      ctor.text = Text.unlines (linesFrom buffer ctor.firstLine last) ∧
      ∀ f ∈ c.fields, f.line < ctor.firstLine ∨ last < f.line

theorem OpenClass.Holds.represents {buffer read below : List Text} {o : OpenClass}
    (h : o.Holds read) (split : buffer = read ++ below) {c : ClassDecl}
    (reported : c = o.decl ∨ o.isClosed ∧ c = o.close read.length) (stands : c.StandsIn buffer) :
    c.Represents buffer := by
  have same : c.firstLine = o.decl.firstLine ∧ c.lines = o.decl.lines ∧ c.fields = o.decl.fields ∧
      c.ctor = o.decl.ctor := by
    rcases reported with rfl | ⟨-, rfl⟩
    · exact ⟨rfl, rfl, rfl, rfl⟩
    · exact ⟨rfl, rfl, rfl, rfl⟩
  obtain ⟨first, lines, fields, found⟩ := same
  have size := h.lineNo
  refine ⟨stands, ?_, ?_, ?_, ?_⟩
  · rw [fields]
    exact h.ordered
  · intro f member
    rw [fields] at member
    have := h.inside f member
    rw [first, lines, size]
    omega
  · intro last ending f member
    rw [fields] at member
    rcases reported with rfl | ⟨closed, rfl⟩
    · rw [h.unclosed] at ending
      cases ending
    · simp only [OpenClass.close, Option.some.injEq] at ending
      have balanced : o.braces = 0 := by
        simp only [OpenClass.isClosed, Bool.and_eq_true, beq_iff_eq] at closed
        exact closed.2
      have inside := (h.inside f member).2
      have : f.line ≠ read.length := by
        intro last
        have := h.depth f member last
        omega
      omega
  · intro ctor last given complete
    rw [found] at given
    obtain ⟨low, order, within, text, -, apart⟩ := h.ctor ctor given
    have reach : ctor.reach read.length = last := by simp [Constructor.reach, complete]
    rw [reach] at order within text apart
    rw [first, lines, fields, size, split, linesFrom_append below within]
    exact ⟨low, order, by omega, text, apart⟩

theorem exists_holds_of_mem_scan {text : Text} {c : ClassDecl} (member : c ∈ scan text) :
    ∃ seen below o, text.lines = seen ++ below ∧ OpenClass.Holds seen o ∧
      (c = o.decl ∨ o.isClosed ∧ c = o.close seen.length) :=
  mem_scanFrom OpenClass.Holds
    (fun read _ header => OpenClass.Holds.start read header)
    (fun _ _ previous line holds _ => holds.readLine previous line) [] (by simp) member

theorem opensConstructor_of_mem_scan {text : Text} {c : ClassDecl} (member : c ∈ scan text)
    {ctor : Constructor} (found : c.ctor = some ctor) :
    ∃ line more, ctor.text = Text.unlines (line :: more) ∧ Line.opensConstructor line c.name := by
  obtain ⟨seen, below, o, -, holds, reported⟩ := exists_holds_of_mem_scan member
  have same : c.ctor = o.decl.ctor ∧ c.name = o.decl.name := by
    rcases reported with rfl | ⟨-, rfl⟩ <;> exact ⟨rfl, rfl⟩
  have stands := holds.ctor ctor (same.1.symm.trans found)
  obtain ⟨line, more, lines, opening⟩ := stands.opening
  exact ⟨line, more, by rw [stands.text, lines], same.2.symm ▸ opening⟩

theorem represents_of_mem_scan {text : Text} {c : ClassDecl} (member : c ∈ scan text) :
    c.Represents text.lines := by
  obtain ⟨seen, below, o, split, holds, reported⟩ := exists_holds_of_mem_scan member
  exact holds.represents split reported (standsIn_of_mem_scan member)

/-- The classes of a buffer are runs of its lines that follow each other without
    meeting, and the fields and the constructor of each stand where their numbers
    say. -/
theorem scan_represents (text : Text) :
    (scan text).Pairwise (fun a b => a.firstLine < b.firstLine ∧ a.Before b) ∧
      ∀ c ∈ scan text, c.Represents text.lines := by
  refine ⟨?_, fun c member => represents_of_mem_scan member⟩
  have ordered := scan_ordered text
  refine ordered.imp_of_mem ?_
  intro a b first second before
  obtain ⟨line, body, lines, -⟩ := (represents_of_mem_scan first).header
  have size : 0 < a.lines.length := by simp [lines]
  simp only [ClassDecl.Before] at before
  exact ⟨by omega, before⟩

end Dart

end ValueClass
