import ValueClass.Proofs.Dart.Placement

/-! # Classes further down

A class that stands further down in a buffer has larger line numbers and is the same
otherwise. Reading does not look at line numbers, so reading the same lines further
down gives the same class further down, and the lines of a closed class are enough to
read it again.
-/

namespace ValueClass.Dart

def Field.lower (by_ : Nat) (f : Field) : Field :=
  { f with line := f.line + by_ }

def Constructor.lower (by_ : Nat) (ctor : Constructor) : Constructor :=
  { ctor with firstLine := ctor.firstLine + by_, lastLine := ctor.lastLine.map (· + by_) }

def ClassDecl.lower (by_ : Nat) (c : ClassDecl) : ClassDecl :=
  { c with
    firstLine := c.firstLine + by_
    lastLine := c.lastLine.map (· + by_)
    fields := c.fields.map (·.lower by_)
    ctor := c.ctor.map (·.lower by_) }

namespace OpenClass

def lower (by_ : Nat) (o : OpenClass) : OpenClass :=
  { o with decl := o.decl.lower by_ }

variable (by_ : Nat) (o : OpenClass) (lineNo : Nat) (previous line : Text)

theorem start_lower : start (lineNo + by_) line = (start lineNo line).lower by_ := rfl

theorem count_lower : (o.lower by_).count line = (o.count line).lower by_ := rfl

theorem startConstructor_lower (depth : Int) :
    (o.lower by_).startConstructor depth (lineNo + by_) line =
    (o.startConstructor depth lineNo line).lower by_ := by
  have same : ((o.lower by_).decl.ctor.isNone && depth == 1 && Line.opensConstructor line
    (o.lower by_).decl.name) =
      (o.decl.ctor.isNone && depth == 1 && Line.opensConstructor line o.decl.name) := by
    rw [show (o.lower by_).decl.ctor = o.decl.ctor.map (·.lower by_) from rfl, Option.isNone_map]
    rfl
  rw [startConstructor, startConstructor, same]
  split <;> rfl

theorem inConstructor_lower : (o.lower by_).inConstructor = o.inConstructor := by
  rw [inConstructor, inConstructor,
    show (o.lower by_).decl.ctor = o.decl.ctor.map (·.lower by_) from rfl, Option.map_map]
  congr 2
  funext ctor
  exact Option.isNone_map

theorem extendConstructor_lower :
    (o.lower by_).extendConstructor (lineNo + by_) line =
    (o.extendConstructor lineNo line).lower by_ := by
  obtain ⟨⟨header, firstLine, lastLine, lines, fields, ctor⟩, braces, parens, opened⟩ := o
  cases ctor with
  | none => rfl
  | some ctor =>
      cases even : parens == 0 <;> simp [extendConstructor, lower, ClassDecl.lower,
        Constructor.lower, even]

theorem field?_lower :
    Line.field? line (lineNo + by_) previous = (Line.field? line lineNo previous).map
      (·.lower by_) := by
  simp only [Line.field?]
  split <;> rfl

theorem addField_lower :
    (o.lower by_).addField (lineNo + by_) previous line =
    (o.addField lineNo previous line).lower by_ := by
  have same : ((o.lower by_).braces == 1 && (o.lower by_).parens == 0 && Line.isField line
    (o.lower by_).decl.name) =
      (o.braces == 1 && o.parens == 0 && Line.isField line o.decl.name) := rfl
  rw [addField, addField, same, field?_lower]
  split
  · cases Line.field? line lineNo previous with
    | none => rfl
    | some field => simp [lower, ClassDecl.lower]
  · rfl

theorem readLine_lower :
    (o.lower by_).readLine (lineNo + by_) previous line =
    (o.readLine lineNo previous line).lower by_ := by
  have started : ((o.lower by_).count line).startConstructor (o.lower by_).braces
      (lineNo + by_) line =
      ((o.count line).startConstructor o.braces lineNo line).lower by_ := by
    rw [count_lower, startConstructor_lower]
    rfl
  rw [readLine, readLine, started, inConstructor_lower]
  split
  · exact extendConstructor_lower ..
  · exact addField_lower ..

theorem close_lower : (o.lower by_).close (lineNo + by_) = (o.close lineNo).lower by_ := rfl

/-- An open class that comes from reading its lines alone: they start at the first line, and
    the class is then what it is here, further up. -/
structure Alone (lineNo : Nat) (previous : Text) (o : OpenClass) : Prop where
  unclosed : o.decl.lastLine = none
  reads : ∃ (by_ : Nat) (first : OpenClass) (count : Nat), o = first.lower by_ ∧
    lineNo = count + by_ ∧
    first.decl.firstLine = 1 ∧ ∀ rest, scanFrom 1 [] none (o.decl.lines ++ rest) =
      scanFrom count previous (some first) rest

end OpenClass

/-- A class that is read from its lines alone as it is here, only further up. -/
def ClassDecl.Alone (c : ClassDecl) : Prop :=
  ∃ alone : ClassDecl, alone.firstLine = 1 ∧ scanFrom 1 [] none c.lines = [alone] ∧
    c = alone.lower (c.firstLine - 1)

theorem report_shown {c : ClassDecl} (shown : c.header.isState = false) : report c = [c] :=
  if_neg (Bool.eq_false_iff.mp shown)

namespace OpenClass

variable {o : OpenClass} {lineNo : Nat} {previous line : Text}

theorem alone_start (header : Header.isHeader line)
    (goes : ((start lineNo line).count line).isClosed = false) :
    ((start (lineNo + 1) line).count line).Alone (lineNo + 1 + 1) line := by
  refine ⟨rfl, lineNo, (start 1 line).count line, 2, ?_, by omega, rfl, ?_⟩
  · rw [← count_lower, ← start_lower, Nat.add_comm]
  · intro rest
    have started : ((start 1 line).count line).isClosed = false := goes
    show scanFrom 1 [] none (line :: rest) = _
    rw [scanFrom_header _ _ _ _ header, scanBehind, started]
    rfl

theorem Alone.readLine (h : o.Alone lineNo previous) (body : Header.isHeader line = false)
    (goes : (o.readLine lineNo previous line).isClosed = false) :
    (o.readLine lineNo previous line).Alone (lineNo + 1) line := by
  obtain ⟨unclosed, by_, first, count, rfl, rfl, top, reads⟩ := h
  refine ⟨by simpa using unclosed, by_, first.readLine count previous line, count + 1,
    readLine_lower .., by omega, ?_, ?_⟩
  · rw [readLine_firstLine, top]
  · intro rest
    have here : (first.readLine count previous line).isClosed = false := by
      rwa [readLine_lower] at goes
    rw [readLine_lines, List.append_assoc, List.singleton_append, reads, scanFrom_some _ _ _ _ body,
      scanBehind, here]
    rfl

theorem Alone.close (h : o.Alone lineNo previous) (body : Header.isHeader line = false)
    (closed : (o.readLine lineNo previous line).isClosed)
    (shown : ((o.readLine lineNo previous line).close lineNo).header.isState = false) :
    ((o.readLine lineNo previous line).close lineNo).Alone := by
  obtain ⟨unclosed, by_, first, count, rfl, rfl, top, reads⟩ := h
  have isClosed : (first.readLine count previous line).isClosed := by rwa [readLine_lower] at closed
  rw [readLine_lower, close_lower] at shown ⊢
  refine ⟨(first.readLine count previous line).close count, ?_, ?_, ?_⟩
  · exact (readLine_firstLine ..).trans top
  · have lines : ((first.readLine count previous line).close count).lines = first.decl.lines ++
        [line] := readLine_lines ..
    show scanFrom 1 [] none ((first.readLine count previous line).close count).lines = _
    rw [lines, show first.decl.lines = (first.lower by_).decl.lines from rfl, reads,
      scanFrom_some _ _ _ _ body, scanBehind, if_pos isClosed, report_shown (by exact shown)]
    rfl
  · show _ = ClassDecl.lower ((first.readLine count previous line).decl.firstLine + by_ - 1) _
    rw [readLine_firstLine, top, Nat.add_sub_cancel_left]

theorem alone_close_start (header : Header.isHeader line)
    (closed : ((start lineNo line).count line).isClosed)
    (shown : (((start (lineNo + 1) line).count line).close (lineNo + 1)).header.isState = false) :
    (((start (lineNo + 1) line).count line).close (lineNo + 1)).Alone := by
  refine ⟨((start 1 line).count line).close 1, rfl, ?_, ?_⟩
  · have started : ((start 1 line).count line).isClosed := closed
    show scanFrom 1 [] none [line] = _
    rw [scanFrom_header _ _ _ _ header, scanBehind, if_pos started, report_shown (by exact shown)]
    rfl
  · show _ = ClassDecl.lower (lineNo + 1 - 1) _
    rw [Nat.add_sub_cancel, ← close_lower, ← count_lower, ← start_lower, Nat.add_comm]

end OpenClass

/-- Every closed class is read from its lines alone. -/
theorem alone_of_mem_scanFrom {lineNo : Nat} {previous : Text} {open? : Option OpenClass}
    {lines : List Text} {c : ClassDecl} (member : c ∈ scanFrom (lineNo + 1) previous open? lines)
    (closed : c.lastLine ≠ none) (opened : ∀ o, open? = some o → o.Alone (lineNo + 1) previous) :
    c.Alone := by
  have reported : ∀ {d : ClassDecl}, c ∈ report d → d.header.isState = false := by
    intro d inside
    by_contra hidden
    rw [report, if_pos (by simpa using hidden)] at inside
    cases inside
  -- an open class is reported without a last line
  have pending : ∀ {o : OpenClass} {n : Nat} {above : Text}, o.Alone n above →
      c ∉ report o.decl := by
    intro o n above alone inside
    rw [mem_report inside] at closed
    exact closed alone.unclosed
  induction lines generalizing lineNo previous open? with
  | nil =>
      cases open? with
      | none => cases member
      | some o => exact absurd member (pending (opened o rfl))
  | cons line rest ih =>
      have behind : ∀ next : OpenClass, c ∈ scanBehind next (lineNo + 1) line rest →
          (next.isClosed → (next.close (lineNo + 1)).header.isState = false →
            (next.close (lineNo + 1)).Alone) →
          (next.isClosed = false → next.Alone (lineNo + 1 + 1) line) → c.Alone := by
        intro next member close goOn
        rw [scanBehind] at member
        split at member
        · rename_i isClosed
          rcases List.mem_append.mp member with inside | member
          · rw [mem_report inside]
            exact close isClosed (reported inside)
          · exact ih member (by simp)
        · rename_i goes
          refine ih member ?_
          rintro o ⟨⟩
          exact goOn (Bool.eq_false_iff.mpr goes)
      cases header : Header.isHeader line with
      | true =>
          rw [scanFrom_header _ _ _ _ header] at member
          rcases List.mem_append.mp member with inside | member
          · cases open? with
            | none => cases inside
            | some o => exact absurd inside (pending (opened o rfl))
          · exact behind _ member
              (fun isClosed shown => OpenClass.alone_close_start header isClosed shown)
              fun goes => OpenClass.alone_start header goes
      | false =>
          cases open? with
          | none =>
              rw [scanFrom_none _ _ _ header] at member
              exact ih member (by simp)
          | some o =>
              have alone := opened o rfl
              rw [scanFrom_some _ _ _ _ header] at member
              exact behind _ member (alone.close header) (alone.readLine header)

theorem scan_content {text : Text} {c : ClassDecl} (member : c ∈ scan text)
    (closed : c.lastLine ≠ none) :
    ∃ alone : ClassDecl, alone.firstLine = 1 ∧ scan c.content = [alone] ∧
      c = alone.lower (c.firstLine - 1) := by
  have read : c ∈ scanFrom (0 + 1) [] none text.lines := member
  obtain ⟨alone, first, scanned, same⟩ := alone_of_mem_scanFrom read closed (by simp)
  obtain ⟨above, below, split, -⟩ := (standsIn_of_mem_scan member).place
  obtain ⟨line, body, lines, -⟩ := (standsIn_of_mem_scan member).header
  have whole : c.content.lines = c.lines := by
    refine Text.lines_unlines (by simp [lines]) fun l inside =>
      Text.notMem_of_mem_lines (t := text) ?_
    rw [split]
    simp [inside]
  exact ⟨alone, first, by rw [scan, whole, scanned], same⟩

end ValueClass.Dart
