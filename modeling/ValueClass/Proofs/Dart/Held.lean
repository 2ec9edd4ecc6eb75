import ValueClass.Proofs.Dart.Body

/-! # The class that the scanner holds

Behind every line of a buffer the scanner holds at most one class. `Held` says which,
one rule for a header and one for a line that is read into an open class, so that
what is true of the counts behind a line is shown by induction on it. A reported class
is one that was held, and it was held behind each of its lines.
-/

namespace ValueClass.Dart

/-- The line above the given one of a buffer, both counted from one. -/
def lineAbove (buffer : List Text) (lineNo : Nat) : Text :=
  match lineNo with
  | n + 2 => buffer[n]?.getD []
  | _ => []

/-- The scanner holds a class behind a line of a buffer. -/
inductive Held (buffer : List Text) : Nat → OpenClass → Prop
  /-- A header opens a class, whatever was open before it. -/
  | header {n : Nat} {line : Text} (here : buffer[n]? = some line) (header : Header.isHeader line) :
      Held buffer (n + 1) ((OpenClass.start (n + 1) line).count line)
  /-- Any other line is read into the class that is still open. -/
  | body {n : Nat} {line : Text} {o : OpenClass} (held : Held buffer n o)
    (open_ : o.isClosed = false)
    (here : buffer[n]? = some line) (body : Header.isHeader line = false) :
      Held buffer (n + 1) (o.readLine (n + 1) (lineAbove buffer (n + 1)) line)

namespace Held

variable {buffer : List Text} {n : Nat} {o p : OpenClass}

/-- No line opens two classes. -/
theorem unique (first : Held buffer n o) (second : Held buffer n p) : o = p := by
  induction first generalizing p with
  | header here header =>
      cases second with
      | header here' _ =>
          rw [here] at here'
          cases here'
          rfl
      | body _ _ here' body =>
          rw [here] at here'
          cases here'
          rw [header] at body
          cases body
  | body held open_ here body ih =>
      cases second with
      | header here' header =>
          rw [here] at here'
          cases here'
          rw [header] at body
          cases body
      | body held' _ here' _ =>
          rw [here] at here'
          cases here'
          rw [ih held']

theorem place (held : Held buffer n o) : o.decl.firstLine + o.decl.lines.length = n + 1 := by
  induction held with
  | header => rfl
  | body _ _ _ _ ih =>
      rw [OpenClass.readLine_firstLine, OpenClass.readLine_lines, List.length_append,
        List.length_singleton]
      omega

theorem firstLine_pos (held : Held buffer n o) : 1 ≤ o.decl.firstLine ∧ o.decl.firstLine ≤ n := by
  induction held with
  | header => exact ⟨Nat.succ_pos _, Nat.le_refl _⟩
  | body _ _ _ _ ih =>
      rw [OpenClass.readLine_firstLine]
      omega

theorem line_eq (held : Held buffer n o) {k : Nat} (within : k < o.decl.lines.length) :
    buffer[o.decl.firstLine - 1 + k]? = o.decl.lines[k]? := by
  induction held with
  | @header n line here _ =>
      have first : k = 0 := Nat.lt_one_iff.mp within
      subst first
      exact here
  | @body n line o held open_ here body ih =>
      have place := held.place
      have first := held.firstLine_pos
      rw [OpenClass.readLine_lines, List.length_append, List.length_singleton] at within
      rw [OpenClass.readLine_firstLine, OpenClass.readLine_lines]
      by_cases old : k < o.decl.lines.length
      · rw [ih old, List.getElem?_append_left old]
      · have last : k = o.decl.lines.length := by omega
        rw [last, List.getElem?_concat_length,
          show o.decl.firstLine - 1 + o.decl.lines.length = n by omega, here]

/-- Behind each of its lines the class was held with the lines read by then. -/
theorem back (held : Held buffer n o) {k : Nat} (within : k < o.decl.lines.length) :
    ∃ p, Held buffer (o.decl.firstLine + k) p ∧ p.decl.firstLine = o.decl.firstLine ∧
      p.decl.name = o.decl.name ∧ p.decl.lines = o.decl.lines.take (k + 1) := by
  induction held with
  | header here header =>
      have first : k = 0 := Nat.lt_one_iff.mp within
      subst first
      exact ⟨_, .header here header, rfl, rfl, rfl⟩
  | @body n line o held open_ here body ih =>
      have now : Held buffer (n + 1) (o.readLine (n + 1) (lineAbove buffer (n + 1)) line) :=
        .body held open_ here body
      have place := held.place
      rw [OpenClass.readLine_lines, List.length_append, List.length_singleton] at within
      rw [OpenClass.readLine_firstLine, OpenClass.readLine_lines, OpenClass.readLine_name]
      by_cases old : k < o.decl.lines.length
      · obtain ⟨p, heldBefore, first, name, lines⟩ := ih old
        refine ⟨p, heldBefore, first, name, ?_⟩
        rw [lines, List.take_append_of_le_length (by omega)]
      · have last : k = o.decl.lines.length := by omega
        have reached : Held buffer (o.decl.firstLine + k)
            (o.readLine (n + 1) (lineAbove buffer (n + 1)) line) := by
          rw [last, place]
          exact now
        refine ⟨_, reached, OpenClass.readLine_firstLine .., OpenClass.readLine_name .., ?_⟩
        rw [OpenClass.readLine_lines, List.take_of_length_le]
        simp [last]

end Held

/-- A class that is reported was held behind its last line. -/
theorem held_of_mem_scanFrom (read : List Text) {rest : List Text} (open? : Option OpenClass)
    (opened : ∀ o, open? = some o → Held (read ++ rest) read.length o ∧ o.isClosed = false)
    {c : ClassDecl}
    (member : c ∈ scanFrom (read.length + 1) (lineAbove (read ++ rest) (read.length + 1))
      open? rest) :
    ∃ n o, Held (read ++ rest) n o ∧ (c = o.decl ∨ o.isClosed ∧ c = o.close n) := by
  induction rest generalizing read open? with
  | nil =>
      cases open? with
      | none => simp [scanFrom] at member
      | some o => exact ⟨_, o, (opened o rfl).1, .inl (mem_report member)⟩
  | cons line rest ih =>
      have here : (read ++ line :: rest)[read.length]? = some line := by simp
      have above : lineAbove (read ++ line :: rest) (read.length + 1 + 1) = line := by
        simp [lineAbove]
      have onward : ∀ open?, (∀ o, open? = some o →
            Held (read ++ line :: rest) (read.length + 1) o ∧ o.isClosed = false) →
          c ∈ scanFrom (read.length + 1 + 1) line open? rest →
          ∃ n o, Held (read ++ line :: rest) n o ∧ (c = o.decl ∨ o.isClosed ∧ c = o.close n) := by
        intro open? opened member
        have size : (read ++ [line]).length = read.length + 1 := by simp
        have same : read ++ [line] ++ rest = read ++ line :: rest := by simp
        have next := ih (read ++ [line]) open?
        rw [size, same, above] at next
        exact next opened member
      have behind : ∀ o, Held (read ++ line :: rest) (read.length + 1) o →
          c ∈ scanBehind o (read.length + 1) line rest →
          ∃ n o, Held (read ++ line :: rest) n o ∧ (c = o.decl ∨ o.isClosed ∧ c = o.close n) := by
        intro o held member
        rw [scanBehind] at member
        split at member
        · rename_i closed
          rcases List.mem_append.mp member with member | member
          · exact ⟨_, o, held, .inr ⟨closed, mem_report member⟩⟩
          · exact onward none (by simp) member
        · rename_i open_
          refine onward (some o) ?_ member
          rintro p ⟨⟩
          exact ⟨held, by simpa using open_⟩
      cases header : Header.isHeader line with
      | true =>
          rw [scanFrom_header _ _ _ _ header] at member
          rcases List.mem_append.mp member with member | member
          · cases open? with
            | none => simp at member
            | some o => exact ⟨_, o, (opened o rfl).1, .inl (mem_report (by simpa using member))⟩
          · exact behind _ (.header here header) member
      | false =>
          cases open? with
          | none =>
              rw [scanFrom_none _ _ _ header] at member
              exact onward none (by simp) member
          | some o =>
              rw [scanFrom_some _ _ _ _ header] at member
              obtain ⟨held, open_⟩ := opened o rfl
              exact behind _ (.body held open_ here header) member

theorem held_of_mem_scan {text : Text} {c : ClassDecl} (member : c ∈ scan text) :
    ∃ n o, Held text.lines n o ∧ (c = o.decl ∨ o.isClosed ∧ c = o.close n) :=
  held_of_mem_scanFrom [] none (by simp) member

theorem held_behind {text : Text} {c : ClassDecl} (member : c ∈ scan text) {k : Nat}
    (within : k < c.lines.length) :
    ∃ p, Held text.lines (c.firstLine + k) p ∧ p.decl.firstLine = c.firstLine ∧
      p.decl.name = c.name ∧
      p.decl.lines = c.lines.take (k + 1) := by
  obtain ⟨n, o, held, rfl | ⟨-, rfl⟩⟩ := held_of_mem_scan member
  · exact held.back within
  · exact held.back within

end ValueClass.Dart
