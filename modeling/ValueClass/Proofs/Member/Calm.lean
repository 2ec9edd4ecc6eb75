import ValueClass.Proofs.Member.Search

/-! # Calm lines

Lines that declare nothing, whatever is written among them. Most lines are tame: they
declare nothing anywhere in a class. The others stand in the shelter of a block, on
lines below its first that neither open nor close a brace and do not end in a
semicolon. Where a member ends there is no shelter, so lines that were calm below a
member are calm below whatever takes its place.
-/

namespace ValueClass.Dart

/-- A line that opens no class, and opens or closes one brace at most. -/
structure Mild (line : Text) : Prop where
  hides : Line.HidesNoBrace line
  noHeader : Header.isHeader line = false
  atLeast : -1 ≤ Line.braces line
  atMost : Line.braces line ≤ 1

/-- A line that declares nothing, wherever it stands in a class. A line that opens a
    brace is never read as a field. -/
structure Tame (className line : Text) : Prop where
  noConstructor : Line.opensConstructor line className = false
  noField : Line.braces line ≤ 0 → ¬ Line.ShowsField line className

/-- Whether the line below a line stands in the shelter of a block. -/
def shelters (sheltered : Bool) (line : Text) : Bool :=
  !line.trimEnd.endsWith ";" && (Line.braces line == 1 || (sheltered && Line.braces line == 0))

def shelterBehind (sheltered : Bool) (ls : List Text) : Bool :=
  ls.foldl shelters sheltered

/-- Lines that declare nothing, given whether they start in the shelter of a block. -/
inductive Calm (className : Text) : Bool → List Text → Prop where
  | nil {sheltered : Bool} : Calm className sheltered []
  | cons {sheltered : Bool} {line : Text} {rest : List Text} (mild : Mild line)
      (inert : Tame className line ∨ sheltered ∧ Line.braces line = 0)
      (below : Calm className (shelters sheltered line) rest) :
        Calm className sheltered (line :: rest)

def IsEnd (line : Text) : Prop :=
  ∀ sheltered, shelters sheltered line = false

section Shelter

variable {line : Text} {sheltered more : Bool}

@[simp] theorem shelterBehind_nil (sheltered : Bool) : shelterBehind sheltered [] = sheltered := rfl

@[simp] theorem shelterBehind_cons (sheltered : Bool) (line : Text) (ls : List Text) :
    shelterBehind sheltered (line :: ls) = shelterBehind (shelters sheltered line) ls := rfl

theorem shelters_mono (wider : sheltered → more) (h : shelters sheltered line) :
    shelters more line := by
  simp only [shelters, Bool.and_eq_true, Bool.or_eq_true] at h ⊢
  exact ⟨h.1, h.2.imp_right fun level => ⟨wider level.1, level.2⟩⟩

theorem two_le_of_shelters {depth : Int} (deep : sheltered → 2 ≤ depth) (inside : 1 ≤ depth)
    (h : shelters sheltered line) : 2 ≤ depth + Line.braces line := by
  simp only [shelters, Bool.and_eq_true, Bool.or_eq_true, beq_iff_eq] at h
  rcases h.2 with opens | ⟨inner, level⟩
  · omega
  · have := deep inner
    omega

theorem isEnd_of_semicolon (h : line.trimEnd.endsWith ";") : IsEnd line := by
  intro sheltered
  rw [shelters, h]
  rfl

theorem isEnd_of_closing (h : Line.braces line = -1) : IsEnd line := by
  intro sheltered
  simp [shelters, h]

end Shelter

namespace Calm

variable {className : Text} {sheltered more : Bool} {a b ls : List Text}

theorem append (first : Calm className sheltered a)
    (second : Calm className (shelterBehind sheltered a) b) :
    Calm className sheltered (a ++ b) := by
  induction first with
  | nil => exact second
  | cons mild inert below ih => exact .cons mild inert (ih second)

theorem mono (h : Calm className sheltered ls) (wider : sheltered → more) :
    Calm className more ls := by
  induction h generalizing more with
  | nil => exact .nil
  | cons mild inert below ih =>
      exact .cons mild (inert.imp_right fun level => ⟨wider level.1, level.2⟩)
        (ih (shelters_mono wider))

theorem exposed (h : Calm className false ls) : Calm className sheltered ls :=
  h.mono nofun

theorem singleton {line : Text} (mild : Mild line) (tame : Tame className line) :
    Calm className sheltered [line] :=
  .cons mild (.inl tame) .nil

theorem mild (h : Calm className sheltered ls) : ∀ line ∈ ls, Mild line := by
  induction h with
  | nil => simp
  | cons mild inert below ih =>
      intro line member
      rcases List.mem_cons.mp member with rfl | member
      · exact mild
      · exact ih line member

end Calm

/-! ## Reading calm lines -/

/-- How the reading of a class ends in some lines: it goes on, or the last of them closes
    the class. -/
inductive Closes (lineNo : Nat) : List Text → Option Nat → Prop where
  | never {ls : List Text} : Closes lineNo ls none
  | last {inner : List Text} {closing : Text} (closes : Line.braces closing = -1) :
      Closes lineNo (inner ++ [closing]) (some (lineNo + inner.length))

theorem Closes.cons {lineNo : Nat} {ls : List Text} {lastLine : Option Nat}
    (h : Closes (lineNo + 1) ls lastLine) (line : Text) : Closes lineNo (line :: ls) lastLine := by
  cases h with
  | never => exact .never
  | @last inner closing closes =>
      have whole : Closes lineNo ((line :: inner) ++ [closing])
          (some (lineNo + (line :: inner).length)) := .last closes
      rw [List.length_cons] at whole
      rwa [show lineNo + 1 + inner.length = lineNo + (inner.length + 1) by omega]

section Reading

variable {className : Text} {sheltered : Bool} {o : OpenClass} {lineNo : Nat} {previous : Text}

theorem readLine_calm {line : Text} (mild : Mild line)
    (inert : Tame className line ∨ 2 ≤ o.braces ∧ Line.braces line = 0) (inside : 1 ≤ o.braces)
    (named : o.decl.name = className) (complete : o.inConstructor = false) (opened : o.opened) :
    o.readLine lineNo previous line = o.grown [line] (o.braces + Line.braces line)
      (o.parens + Line.parens (Line.blankStrings line)) := by
  refine OpenClass.readLine_mute mild.hides ?_ ?_ named complete opened
  · intro one
    rcases inert with tame | ⟨deep, -⟩
    · exact tame.noConstructor
    · omega
  · intro one
    rcases inert with tame | ⟨deep, level⟩
    · exact tame.noField (by omega)
    · omega

theorem isClosed_grown {ls : List Text} {braces parens : Int} (opened : o.opened) :
    (o.grown ls braces parens).isClosed = (braces == 0) := by
  rw [OpenClass.isClosed, show (o.grown ls braces parens).opened = true from opened, Bool.true_and]
  rfl

theorem scanFrom_open {rest : List Text} (shown : o.decl.header.isState = false)
    (ends : ∀ line more, rest = line :: more → Header.isHeader line) :
    scanFrom lineNo previous (some o) rest = o.decl :: scanFrom lineNo previous none rest := by
  have reported : report o.decl = [o.decl] := by
    rw [report, if_neg (by simp [shown])]
  cases rest with
  | nil => exact reported
  | cons line more =>
      have header := ends line more rfl
      rw [scanFrom_header _ _ _ _ header, scanFrom_header _ _ _ _ header, Option.map_some,
        Option.getD_some, reported]
      rfl

theorem scanFrom_closing {line : Text} {tail rest : List Text} {parens : Int}
    (mild : ∀ l ∈ line :: tail, Mild l)
    (read : o.readLine lineNo previous line = o.grown [line] (o.braces + Line.braces line) parens)
    (closed : o.braces + Line.braces line = 0) (opened : o.opened)
    (shown : o.decl.header.isState = false) :
    scanFrom lineNo previous (some o) (line :: tail ++ rest) =
      { o.decl with lines := o.decl.lines ++ [line], lastLine := some lineNo } ::
        scanFrom (lineNo + (line :: tail).length) (tail.getLast?.getD line) none rest := by
  have isClosed : (o.grown [line] (o.braces + Line.braces line) parens).isClosed := by
    rw [isClosed_grown opened, closed]
    rfl
  rw [List.cons_append, OpenClass.scanFrom_close (mild line (by simp)).noHeader read isClosed,
    scanFrom_passed fun l member => (mild l (List.mem_cons_of_mem _ member)).noHeader, report,
    if_neg]
  · rw [List.length_cons, show lineNo + 1 + tail.length = lineNo + (tail.length + 1) by omega]
    rfl
  · exact ne_true_of_eq_false shown

/-- Calm lines at the end of a class are read to one class, whether or not they close it. -/
theorem scanFrom_calm {tail rest : List Text} (calm : Calm className sheltered tail)
    (deep : sheltered → 2 ≤ o.braces) (inside : 1 ≤ o.braces) (named : o.decl.name = className)
    (complete : o.inConstructor = false) (opened : o.opened) (pending : o.decl.lastLine = none)
    (shown : o.decl.header.isState = false)
    (ends : ∀ line more, rest = line :: more → Header.isHeader line) :
    ∃ taken beyond lastLine before, tail = taken ++ beyond ∧ Closes lineNo taken lastLine ∧
      scanFrom lineNo previous (some o) (tail ++ rest) =
        { o.decl with lines := o.decl.lines ++ taken, lastLine } ::
          scanFrom (lineNo + tail.length) before none rest := by
  induction calm generalizing o lineNo previous with
  | nil =>
      refine ⟨[], [], none, previous, rfl, .never, ?_⟩
      have same : { o.decl with lines := o.decl.lines ++ [], lastLine := none } = o.decl := by
        rw [List.append_nil, ← pending]
      rw [same]
      exact scanFrom_open shown ends
  | @cons sheltered line tail mild inert below ih =>
      have read : o.readLine lineNo previous line = o.grown [line] (o.braces + Line.braces line)
          (o.parens + Line.parens (Line.blankStrings line)) :=
        readLine_calm mild (inert.imp_right fun level => ⟨deep level.1, level.2⟩) inside named
          complete opened
      generalize o.parens + Line.parens (Line.blankStrings line) = parens at read
      by_cases closed : o.braces + Line.braces line = 0
      · have level : Line.braces line = -1 := by
          have := mild.atLeast
          omega
        have closes : Closes lineNo ([] ++ [line]) (some (lineNo + 0)) := .last level
        exact ⟨[line], tail, some lineNo, tail.getLast?.getD line, rfl, closes,
          scanFrom_closing (Calm.cons mild inert below).mild read closed opened shown⟩
      · have positive : 1 ≤ o.braces + Line.braces line := by
          have := mild.atLeast
          omega
        have goes : (o.grown [line] (o.braces + Line.braces line) parens).isClosed = false := by
          rw [isClosed_grown opened]
          simpa using closed
        have step : o.Reads lineNo previous [line]
            (o.grown [line] (o.braces + Line.braces line) parens) :=
          OpenClass.reads_line mild.noHeader read goes
        obtain ⟨taken, beyond, lastLine, before, split, closes, scanned⟩ :
            ∃ taken beyond lastLine before, tail = taken ++ beyond ∧
              Closes (lineNo + 1) taken lastLine ∧
              scanFrom (lineNo + 1) line
                (some (o.grown [line] (o.braces + Line.braces line) parens)) (tail ++ rest) =
                { o.decl with lines := o.decl.lines ++ [line] ++ taken, lastLine } ::
                  scanFrom (lineNo + 1 + tail.length) before none rest :=
          ih (two_le_of_shelters deep inside) positive named complete opened pending shown
        refine ⟨line :: taken, beyond, lastLine, before, by rw [split, List.cons_append],
          closes.cons line, ?_⟩
        rw [List.cons_append, ← List.singleton_append, step, List.length_singleton,
          List.getLast?_singleton, Option.getD_some, scanned, List.length_cons,
          show lineNo + 1 + tail.length = lineNo + (tail.length + 1) by omega, List.append_assoc,
          List.singleton_append]

end Reading

/-! ## Members among calm lines -/

/-- A span ends on one of some lines, and there is no shelter below it. -/
def Span.EndsIn (span : Span) (lineNo : Nat) (ls : List Text) : Prop :=
  ∃ front line rest, ls = front ++ line :: rest ∧ span.last = lineNo + front.length ∧ IsEnd line

namespace Span.EndsIn

variable {span : Span} {lineNo : Nat} {line : Text} {rest : List Text}

theorem isEnd (h : span.EndsIn lineNo (line :: rest)) (last : span.last ≤ lineNo) : IsEnd line := by
  obtain ⟨front, ending, more, split, place, isEnd⟩ := h
  cases front with
  | nil =>
      cases split
      exact isEnd
  | cons first others =>
      rw [List.length_cons] at place
      omega

theorem tail (h : span.EndsIn lineNo (line :: rest)) (later : lineNo + 1 ≤ span.last) :
    span.EndsIn (lineNo + 1) rest := by
  obtain ⟨front, ending, more, split, place, isEnd⟩ := h
  cases front with
  | nil =>
      rw [List.length_nil] at place
      omega
  | cons first others =>
      obtain ⟨-, split⟩ := List.cons.inj split
      rw [List.length_cons] at place
      exact ⟨others, ending, more, split, by omega, isEnd⟩

end Span.EndsIn

namespace ClassDecl

/-- A member ends on a line below which there is no shelter. -/
theorem takeMember_isEnd {expression : Bool} {depth : Int} {lineNo last : Nat}
    {ls taken : List Text} (mild : ∀ line ∈ ls, Mild line) (deep : expression = false → 2 ≤ depth)
    (h : takeMember expression depth lineNo ls = some (last, taken)) :
    ∃ front line rest, ls = front ++ line :: rest ∧ last = lineNo + front.length ∧ IsEnd line := by
  induction ls generalizing depth lineNo taken with
  | nil => cases h
  | cons line rest ih =>
      rw [takeMember] at h
      split at h
      · rename_i ends
        cases h
        refine ⟨[], line, rest, rfl, rfl, ?_⟩
        cases expression with
        | true => exact isEnd_of_semicolon ends
        | false =>
            -- at least two braces were open before the line, and one is behind it
            have level : depth + Line.braces line = 1 := by simpa [endsMember] using ends
            have := deep rfl
            have := (mild line (by simp)).atLeast
            exact isEnd_of_closing (by omega)
      · rename_i goes
        obtain ⟨⟨_, others⟩, found, same⟩ := Option.map_eq_some_iff.mp h
        cases same
        have still : expression = false → 2 ≤ depth + Line.braces line := by
          rintro rfl
          have level : depth + Line.braces line ≠ 1 := by simpa [endsMember] using goes
          have := deep rfl
          have := (mild line (by simp)).atLeast
          omega
        obtain ⟨front, ending, more, split, place, isEnd⟩ :=
          ih (fun l member => mild l (List.mem_cons_of_mem _ member)) still found
        refine ⟨line :: front, ending, more, by rw [split, List.cons_append], ?_, isEnd⟩
        rw [place, List.length_cons]
        omega

/-- What is found among mild lines ends where there is no shelter. -/
theorem findFrom_isEnd {target : Text} {depth : Int} {lineNo : Nat} {ls : List Text} {span : Span}
    (mild : ∀ line ∈ ls, Mild line) (h : findFrom target depth lineNo ls = some span) :
    lineNo ≤ span.first ∧ span.EndsIn lineNo ls := by
  induction ls generalizing depth lineNo with
  | nil => cases h
  | cons line rest ih =>
      have later := fun l member => mild l (List.mem_cons_of_mem line member)
      rw [findFrom] at h
      dsimp only at h
      split at h
      · rename_i signs
        obtain ⟨⟨last, taken⟩, found, rfl⟩ := Option.map_eq_some_iff.mp h
        refine ⟨Nat.le_refl _, ?_⟩
        unfold Span.EndsIn
        cases expression : line.has "=>" with
        | true =>
            rw [expression] at found
            exact takeMember_isEnd mild (by simp) found
        | false =>
            -- two braces are open behind the first line of a block
            have two : depth + Line.braces line = 2 := by
              simp only [expression, Bool.and_eq_true, Bool.or_false, beq_iff_eq] at signs
              exact signs.2
            have goes : endsMember false (depth + Line.braces line) line = false := by
              rw [two]
              rfl
            rw [expression, takeMember] at found
            simp only [goes, Bool.false_eq_true, ↓reduceIte] at found
            obtain ⟨⟨_, others⟩, below, same⟩ := Option.map_eq_some_iff.mp found
            cases same
            obtain ⟨front, ending, more, split, place, isEnd⟩ :=
              takeMember_isEnd later (fun _ => by omega) below
            refine ⟨line :: front, ending, more, by rw [split, List.cons_append], ?_, isEnd⟩
            dsimp only
            rw [place, List.length_cons]
            omega
      · obtain ⟨behind, front, ending, more, split, place, isEnd⟩ := ih later h
        refine ⟨by omega, line :: front, ending, more, by rw [split, List.cons_append], ?_, isEnd⟩
        rw [place, List.length_cons]
        omega

end ClassDecl

end ValueClass.Dart
