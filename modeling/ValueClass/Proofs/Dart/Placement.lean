import Mathlib.Data.List.Basic
import Mathlib.Data.List.Pairwise
import Mathlib.Tactic.Common
import ValueClass.Dart.Scan
import ValueClass.Proofs.Text.Lines

/-! # Where the classes of a buffer stand

The scanner is one pass over the lines, so what holds of every class it reports
is what its open class keeps from line to line: `mem_scanFrom` says this once.
From it, every class is a run of lines that starts with a header, at the line
number it carries; and the runs follow each other without meeting.
-/

namespace ValueClass.Dart

theorem mem_report {c d : ClassDecl} (h : c ∈ report d) : c = d := by
  simp only [report] at h
  split at h
  · simp at h
  · simpa using h

/-- The classes that follow once a line has been taken into the class `o`. -/
def scanBehind (o : OpenClass) (lineNo : Nat) (line : Text) (rest : List Text) : List ClassDecl :=
  if o.isClosed then report (o.close lineNo) ++ scanFrom (lineNo + 1) line none rest
  else scanFrom (lineNo + 1) line (some o) rest

section Equations

variable {line : Text} (lineNo : Nat) (previous : Text) (rest : List Text)

theorem scanFrom_header (open? : Option OpenClass) (header : Header.isHeader line) :
    scanFrom lineNo previous open? (line :: rest) =
      (open?.map fun o => report o.decl).getD [] ++
        scanBehind ((OpenClass.start lineNo line).count line) lineNo line rest := by
  cases open? <;> simp [scanFrom, scanBehind, header]

theorem scanFrom_none (body : Header.isHeader line = false) :
    scanFrom lineNo previous none (line :: rest) = scanFrom (lineNo + 1) line none rest := by
  simp [scanFrom, body]

theorem scanFrom_some (o : OpenClass) (body : Header.isHeader line = false) :
    scanFrom lineNo previous (some o) (line :: rest) =
      scanBehind (o.readLine lineNo previous line) lineNo line rest := by
  simp [scanFrom, scanBehind, body]

end Equations

/-- What an open class keeps over every line that is read holds of every class
    that is reported. `seen` are the lines up to the one the class was reported
    on. -/
theorem mem_scanFrom (inv : List Text → OpenClass → Prop)
    (start : ∀ read line, Header.isHeader line →
      inv (read ++ [line]) ((OpenClass.start (read.length + 1) line).count line))
    (step : ∀ read o previous line, inv read o → Header.isHeader line = false →
      inv (read ++ [line]) (o.readLine (read.length + 1) previous line))
    (read : List Text) {rest : List Text} {previous : Text} {open? : Option OpenClass}
    (opened : ∀ o, open? = some o → inv read o) {c : ClassDecl}
    (h : c ∈ scanFrom (read.length + 1) previous open? rest) :
    ∃ seen below o, read ++ rest = seen ++ below ∧ inv seen o ∧
      (c = o.decl ∨ o.isClosed ∧ c = o.close seen.length) := by
  induction rest generalizing read previous open? with
  | nil =>
      cases open? with
      | none => simp [scanFrom] at h
      | some o => exact ⟨read, [], o, rfl, opened o rfl, .inl (mem_report h)⟩
  | cons line rest ih =>
      have onward : ∀ open?, (∀ o, open? = some o → inv (read ++ [line]) o) →
          c ∈ scanFrom (read.length + 1 + 1) line open? rest →
          ∃ seen below o, read ++ line :: rest = seen ++ below ∧ inv seen o ∧
            (c = o.decl ∨ o.isClosed ∧ c = o.close seen.length) := by
        intro open? kept member
        rw [show read ++ line :: rest = read ++ [line] ++ rest by simp]
        apply ih (read ++ [line]) kept
        rwa [List.length_append, List.length_singleton]
      have behind : ∀ o : OpenClass, inv (read ++ [line]) o →
          c ∈ scanBehind o (read.length + 1) line rest →
          ∃ seen below o, read ++ line :: rest = seen ++ below ∧ inv seen o ∧
            (c = o.decl ∨ o.isClosed ∧ c = o.close seen.length) := by
        intro o kept member
        rw [scanBehind] at member
        split at member
        · rename_i closed
          rcases List.mem_append.mp member with member | member
          · refine ⟨read ++ [line], rest, o, by simp, kept, .inr ⟨closed, ?_⟩⟩
            simpa using mem_report member
          · exact onward none (by simp) member
        · exact onward (some o) (by simpa using kept) member
      cases header : Header.isHeader line with
      | true =>
          rw [scanFrom_header _ _ _ _ header] at h
          rcases List.mem_append.mp h with member | member
          · cases open? with
            | none => simp at member
            | some o =>
                exact ⟨read, line :: rest, o, rfl, opened o rfl,
                  .inl (mem_report (by simpa using member))⟩
          · exact behind _ (start read line header) member
      | false =>
          cases open? with
          | none =>
              rw [scanFrom_none _ _ _ header] at h
              exact onward none (by simp) h
          | some o =>
              rw [scanFrom_some _ _ _ _ header] at h
              exact behind _ (step read o previous line (opened o rfl) header) h

namespace OpenClass

/-! What reading a line leaves alone. -/

@[simp] theorem startConstructor_lines (o : OpenClass) (depth : Int) (lineNo : Nat) (line : Text) :
    (o.startConstructor depth lineNo line).decl.lines = o.decl.lines := by
  simp only [startConstructor]
  split <;> rfl

@[simp] theorem startConstructor_firstLine (o : OpenClass) (depth : Int) (lineNo : Nat)
    (line : Text) : (o.startConstructor depth lineNo line).decl.firstLine = o.decl.firstLine := by
  simp only [startConstructor]
  split <;> rfl

@[simp] theorem startConstructor_lastLine (o : OpenClass) (depth : Int) (lineNo : Nat)
    (line : Text) : (o.startConstructor depth lineNo line).decl.lastLine = o.decl.lastLine := by
  simp only [startConstructor]
  split <;> rfl

@[simp] theorem extendConstructor_lines (o : OpenClass) (lineNo : Nat) (line : Text) :
    (o.extendConstructor lineNo line).decl.lines = o.decl.lines := by
  simp only [extendConstructor]
  split <;> rfl

@[simp] theorem extendConstructor_firstLine (o : OpenClass) (lineNo : Nat) (line : Text) :
    (o.extendConstructor lineNo line).decl.firstLine = o.decl.firstLine := by
  simp only [extendConstructor]
  split <;> rfl

@[simp] theorem extendConstructor_lastLine (o : OpenClass) (lineNo : Nat) (line : Text) :
    (o.extendConstructor lineNo line).decl.lastLine = o.decl.lastLine := by
  simp only [extendConstructor]
  split <;> rfl

@[simp] theorem addField_lines (o : OpenClass) (lineNo : Nat) (previous line : Text) :
    (o.addField lineNo previous line).decl.lines = o.decl.lines := by
  simp only [addField]
  split
  · split <;> rfl
  · rfl

@[simp] theorem addField_firstLine (o : OpenClass) (lineNo : Nat) (previous line : Text) :
    (o.addField lineNo previous line).decl.firstLine = o.decl.firstLine := by
  simp only [addField]
  split
  · split <;> rfl
  · rfl

@[simp] theorem addField_lastLine (o : OpenClass) (lineNo : Nat) (previous line : Text) :
    (o.addField lineNo previous line).decl.lastLine = o.decl.lastLine := by
  simp only [addField]
  split
  · split <;> rfl
  · rfl

@[simp] theorem readLine_lines (o : OpenClass) (lineNo : Nat) (previous line : Text) :
    (o.readLine lineNo previous line).decl.lines = o.decl.lines ++ [line] := by
  simp only [readLine]
  split <;> simp [count]

@[simp] theorem readLine_firstLine (o : OpenClass) (lineNo : Nat) (previous line : Text) :
    (o.readLine lineNo previous line).decl.firstLine = o.decl.firstLine := by
  simp only [readLine]
  split <;> simp [count]

@[simp] theorem readLine_lastLine (o : OpenClass) (lineNo : Nat) (previous line : Text) :
    (o.readLine lineNo previous line).decl.lastLine = o.decl.lastLine := by
  simp only [readLine]
  split <;> simp [count]

/-- The open class is the run of lines that ends with the last line read. -/
structure EndsAt (read : List Text) (o : OpenClass) : Prop where
  place : ∃ above, read = above ++ o.decl.lines ∧ o.decl.firstLine = above.length + 1
  header : ∃ line body, o.decl.lines = line :: body ∧ Header.isHeader line
  unclosed : o.decl.lastLine = none

theorem EndsAt.start (read : List Text) {line : Text} (header : Header.isHeader line) :
    EndsAt (read ++ [line]) ((OpenClass.start (read.length + 1) line).count line) :=
  ⟨⟨read, rfl, rfl⟩, ⟨line, [], rfl, header⟩, rfl⟩

theorem EndsAt.readLine {read : List Text} {o : OpenClass} (h : EndsAt read o) (lineNo : Nat)
    (previous line : Text) : EndsAt (read ++ [line]) (o.readLine lineNo previous line) := by
  obtain ⟨⟨above, split, first⟩, ⟨head, body, lines, header⟩, unclosed⟩ := h
  refine ⟨⟨above, ?_, ?_⟩, ⟨head, body ++ [line], ?_, header⟩, ?_⟩
  · simp [split]
  · simpa using first
  · simp [lines]
  · simpa using unclosed

theorem EndsAt.lineNo {read : List Text} {o : OpenClass} (h : EndsAt read o) :
    o.decl.firstLine + o.decl.lines.length = read.length + 1 := by
  obtain ⟨above, split, first⟩ := h.place
  simp only [split, first, List.length_append]
  omega

end OpenClass

/-- A class is the run of lines of a buffer that its line numbers say. -/
structure ClassDecl.StandsIn (buffer : List Text) (c : ClassDecl) : Prop where
  place : ∃ above below, buffer = above ++ c.lines ++ below ∧ c.firstLine = above.length + 1
  header : ∃ line body, c.lines = line :: body ∧ Header.isHeader line
  ending : ∀ last, c.lastLine = some last → last + 1 = c.firstLine + c.lines.length

theorem ClassDecl.StandsIn.bound {buffer : List Text} {c : ClassDecl} (h : c.StandsIn buffer) :
    1 ≤ c.firstLine ∧ c.firstLine + c.lines.length ≤ buffer.length + 1 := by
  obtain ⟨above, below, split, first⟩ := h.place
  simp only [split, first, List.length_append]
  omega

theorem standsIn_of_mem_scan {text : Text} {c : ClassDecl} (h : c ∈ scan text) :
    c.StandsIn text.lines := by
  obtain ⟨seen, below, o, split, kept, reported⟩ := mem_scanFrom OpenClass.EndsAt
    (fun read _ header => OpenClass.EndsAt.start read header)
    (fun _ _ previous line kept _ => kept.readLine _ previous line) [] (by simp) h
  obtain ⟨above, place, first⟩ := kept.place
  rw [List.nil_append] at split
  have whole : text.lines = above ++ o.decl.lines ++ below := by rw [split, place]
  rcases reported with rfl | ⟨-, rfl⟩
  · refine ⟨⟨above, below, whole, first⟩, kept.header, ?_⟩
    intro last ending
    simp [kept.unclosed] at ending
  · refine ⟨⟨above, below, whole, first⟩, kept.header, ?_⟩
    intro last ending
    simp only [OpenClass.close, Option.some.injEq] at ending ⊢
    rw [kept.lineNo, ending]

def ClassDecl.Before (a b : ClassDecl) : Prop :=
  a.firstLine + a.lines.length ≤ b.firstLine

/-- Classes that follow each other, the first of them at a line or below it. -/
structure InOrder (first : Nat) (cs : List ClassDecl) : Prop where
  apart : cs.Pairwise ClassDecl.Before
  below : ∀ c ∈ cs, first ≤ c.firstLine

theorem inOrder_nil (first : Nat) : InOrder first [] :=
  ⟨.nil, fun _ member => nomatch member⟩

theorem InOrder.mono {m n : Nat} {cs : List ClassDecl} (h : InOrder n cs) (le : m ≤ n) :
    InOrder m cs :=
  ⟨h.apart, fun c member => Nat.le_trans le (h.below c member)⟩

theorem InOrder.report {n : Nat} {cs : List ClassDecl} (h : InOrder n cs) (d : ClassDecl)
    (reach : d.firstLine + d.lines.length ≤ n) : InOrder d.firstLine (report d ++ cs) := by
  refine ⟨List.pairwise_append.mpr ⟨?_, h.apart, ?_⟩, ?_⟩
  · simp only [Dart.report]
    split <;> simp
  · intro a first b second
    have low := h.below b second
    rw [mem_report first, ClassDecl.Before]
    omega
  · intro c member
    rcases List.mem_append.mp member with member | member
    · exact Nat.le_of_eq (congrArg ClassDecl.firstLine (mem_report member)).symm
    · have low := h.below c member
      omega

/-- The classes that are reported follow each other, and none starts above the
    open class, or above the line the scanner has come to. -/
theorem scanFrom_ordered (read : List Text) {rest : List Text} {previous : Text}
    {open? : Option OpenClass} (opened : ∀ o, open? = some o → o.EndsAt read) :
    InOrder ((open?.map fun o => o.decl.firstLine).getD (read.length + 1))
      (scanFrom (read.length + 1) previous open? rest) := by
  induction rest generalizing read previous open? with
  | nil =>
      cases open? with
      | none => exact inOrder_nil _
      | some o =>
          have reported := (inOrder_nil _).report o.decl (Nat.le_refl _)
          rwa [List.append_nil] at reported
  | cons line rest ih =>
      have onward : ∀ open?, (∀ o, open? = some o → o.EndsAt (read ++ [line])) →
          InOrder ((open?.map fun o => o.decl.firstLine).getD (read.length + 1 + 1))
            (scanFrom (read.length + 1 + 1) line open? rest) := by
        intro open? kept
        simpa using ih (read ++ [line]) kept
      have behind : ∀ o : OpenClass, o.EndsAt (read ++ [line]) →
          InOrder o.decl.firstLine (scanBehind o (read.length + 1) line rest) := by
        intro o kept
        have lineNo := kept.lineNo
        rw [List.length_append, List.length_singleton] at lineNo
        rw [scanBehind]
        split
        · exact (onward none (by simp)).report (o.close _) (Nat.le_of_eq lineNo)
        · exact onward (some o) (by simpa using kept)
      cases header : Header.isHeader line with
      | true =>
          rw [scanFrom_header _ _ _ _ header]
          have started : InOrder (read.length + 1) _ :=
            behind _ (OpenClass.EndsAt.start read header)
          cases open? with
          | none => exact started
          | some o => exact started.report o.decl (Nat.le_of_eq (opened o rfl).lineNo)
      | false =>
          cases open? with
          | none =>
              rw [scanFrom_none _ _ _ header]
              exact (onward none (by simp)).mono (Nat.le_succ _)
          | some o =>
              rw [scanFrom_some _ _ _ _ header]
              simpa using behind _ ((opened o rfl).readLine (read.length + 1) previous line)

theorem scan_ordered (text : Text) : (scan text).Pairwise ClassDecl.Before :=
  (scanFrom_ordered [] (by simp)).apart

theorem scan_apart {text : Text} {a b : ClassDecl} (first : a ∈ scan text) (second : b ∈ scan text)
    (distinct : a ≠ b) : a.Before b ∨ b.Before a := by
  have either : (scan text).Pairwise fun a b => a.Before b ∨ b.Before a :=
    (scan_ordered text).imp .inl
  have : Std.Symm fun a b : ClassDecl => a.Before b ∨ b.Before a := ⟨fun _ _ h => h.symm⟩
  exact either.forall first second distinct

end ValueClass.Dart
