import ValueClass.Proofs.Dart.FieldShape
import ValueClass.Proofs.Dart.Placement
import ValueClass.Proofs.Dart.Weight

/-! # Reading the body of a class

What the scanner makes of a run of lines, whatever follows them. A quiet line only
takes the depth of braces from one number to another; so a run of quiet lines is
kept as it is and declares nothing.
-/

namespace ValueClass.Dart

/-- An open class takes some lines in and stays open, whatever follows. -/
def OpenClass.Reads (o : OpenClass) (lineNo : Nat) (previous : Text) (ls : List Text)
    (o' : OpenClass) : Prop :=
  ∀ rest, scanFrom lineNo previous (some o) (ls ++ rest) =
    scanFrom (lineNo + ls.length) (ls.getLast?.getD previous) (some o') rest

namespace OpenClass

variable {o o' o'' : OpenClass} {lineNo : Nat} {previous : Text}

theorem Reads.append {ls more : List Text} (first : o.Reads lineNo previous ls o')
    (second : o'.Reads (lineNo + ls.length) (ls.getLast?.getD previous) more o'') :
    o.Reads lineNo previous (ls ++ more) o'' := by
  intro rest
  have behind : more.getLast?.getD (ls.getLast?.getD previous) =
      (ls ++ more).getLast?.getD previous := by
    rw [List.getLast?_append]
    cases more.getLast? <;> rfl
  rw [List.append_assoc, first, second, behind, List.length_append, Nat.add_assoc]

theorem reads_nil (o : OpenClass) (lineNo : Nat) (previous : Text) :
    o.Reads lineNo previous [] o :=
  fun _ => rfl

theorem reads_line {line : Text} (body : Header.isHeader line = false)
    (read : o.readLine lineNo previous line = o') (open_ : o'.isClosed = false) :
    o.Reads lineNo previous [line] o' := by
  intro rest
  rw [List.singleton_append, scanFrom_some _ _ _ _ body, read, scanBehind, if_neg (by simp [open_])]
  rfl

theorem scanFrom_close {line : Text} (body : Header.isHeader line = false)
    (read : o.readLine lineNo previous line = o') (closed : o'.isClosed) (rest : List Text) :
    scanFrom lineNo previous (some o) (line :: rest) =
      report (o'.close lineNo) ++ scanFrom (lineNo + 1) line none rest := by
  rw [scanFrom_some _ _ _ _ body, read, scanBehind, if_pos closed]

end OpenClass

theorem scanFrom_passed {ls : List Text} (bodies : ∀ line ∈ ls, Header.isHeader line = false)
    (lineNo : Nat) (previous : Text) (rest : List Text) :
    scanFrom lineNo previous none (ls ++ rest) =
      scanFrom (lineNo + ls.length) (ls.getLast?.getD previous) none rest := by
  induction ls generalizing lineNo previous with
  | nil => rfl
  | cons line more ih =>
      rw [List.cons_append, scanFrom_none _ _ _ (bodies line (by simp)),
        ih (fun l member => bodies l (List.mem_cons_of_mem _ member)), List.length_cons,
        show lineNo + 1 + more.length = lineNo + (more.length + 1) by omega]
      congr 1
      rw [List.getLast?_cons]
      cases more.getLast? <;> rfl

/-! ## Quiet lines -/

/-- A line in a class that declares nothing, `depth` braces being open before it. -/
structure QuietLine (className : Text) (depth : Int) (line : Text) : Prop where
  hides : Line.HidesNoBrace line
  noHeader : Header.isHeader line = false
  inside : 1 ≤ depth + Line.braces line
  noConstructor : depth = 1 → Line.opensConstructor line className = false
  noField : depth + Line.braces line = 1 → ¬ Line.ShowsField line className

/-- Lines that declare nothing and take the depth of braces from one number to
    another. -/
def Quiet (className : Text) : Int → List Text → Int → Prop
  | depth, [], behind => depth = behind
  | depth, line :: rest, behind =>
    QuietLine className depth line ∧ Quiet className (depth + Line.braces line) rest behind

theorem Quiet.append {className : Text} {depth between behind : Int} {a b : List Text}
    (first : Quiet className depth a between) (second : Quiet className between b behind) :
    Quiet className depth (a ++ b) behind := by
  induction a generalizing depth with
  | nil =>
      rw [Quiet] at first
      rwa [first]
  | cons line rest ih => exact ⟨first.1, ih first.2⟩

namespace OpenClass

variable {o : OpenClass} {className : Text} {lineNo : Nat} {previous : Text}

def grown (o : OpenClass) (ls : List Text) (braces parens : Int) : OpenClass :=
  { o with decl := { o.decl with lines := o.decl.lines ++ ls }, braces, parens }

theorem readLine_mute {line : Text} (hides : Line.HidesNoBrace line)
    (noConstructor : o.braces = 1 → Line.opensConstructor line className = false)
    (noField : o.braces + Line.braces line = 1 → ¬ Line.ShowsField line className)
    (named : o.decl.name = className) (complete : o.inConstructor = false) (opened : o.opened) :
    o.readLine lineNo previous line = o.grown [line] (o.braces + Line.braces line)
      (o.parens + Line.parens (Line.blankStrings line)) := by
  have counted : o.count line = o.grown [line] (o.braces + Line.braces line)
      (o.parens + Line.parens (Line.blankStrings line)) := by
    simp [count, grown, hides.braces, opened]
  have started : (o.count line).startConstructor o.braces lineNo line = o.count line := by
    rw [startConstructor]
    split
    · rename_i starts
      simp only [Bool.and_eq_true, beq_iff_eq] at starts
      rw [show (o.count line).decl.name = className from named, noConstructor starts.1.2] at starts
      simp at starts
    · rfl
  have incomplete : (o.count line).inConstructor = false := complete
  have unnamed : (o.count line).addField lineNo previous line = o.count line := by
    rw [addField]
    split
    · rename_i field
      simp only [Bool.and_eq_true, beq_iff_eq] at field
      have level : o.braces + Line.braces line = 1 := by
        rw [counted] at field
        exact field.1.1
      rw [show (o.count line).decl.name = className from named] at field
      rw [Line.field?_eq_none_of_not_showsField (noField level) field.2]
    · rfl
  rw [readLine, started, incomplete]
  simpa [unnamed] using counted

/-- Quiet lines are kept and declare nothing. -/
theorem reads_quiet {ls : List Text} {behind : Int} (quiet : Quiet className o.braces ls behind)
    (named : o.decl.name = className) (complete : o.inConstructor = false) (opened : o.opened) :
    ∃ parens, o.Reads lineNo previous ls (o.grown ls behind parens) := by
  induction ls generalizing o lineNo previous with
  | nil =>
      rw [Quiet] at quiet
      refine ⟨o.parens, ?_⟩
      rw [← quiet]
      simpa [grown] using reads_nil o lineNo previous
  | cons line rest ih =>
      have read : o.readLine lineNo previous line = o.grown [line] (o.braces + Line.braces line)
          (o.parens + Line.parens (Line.blankStrings line)) :=
        readLine_mute quiet.1.hides quiet.1.noConstructor quiet.1.noField named complete opened
      generalize o.parens + Line.parens (Line.blankStrings line) = parens at read
      have open_ : (o.grown [line] (o.braces + Line.braces line) parens).isClosed = false := by
        have := quiet.1.inside
        rw [isClosed, Bool.and_eq_false_iff]
        refine .inr ?_
        rw [beq_eq_false_iff_ne]
        show o.braces + Line.braces line ≠ 0
        omega
      have behind : ∃ more, (o.grown [line] (o.braces + Line.braces line) parens).Reads
          (lineNo + 1) line rest
          ((o.grown [line] (o.braces + Line.braces line) parens).grown rest behind more) :=
        ih quiet.2 named complete opened
      obtain ⟨more, reads⟩ := behind
      refine ⟨more, ?_⟩
      have whole := (reads_line quiet.1.noHeader read open_).append reads
      simpa [grown] using whole

/-! ## The constructor -/

/-- A class whose constructor is read: its lines so far, and the line it closed on. -/
def building (o : OpenClass) (ls : List Text) (firstLine : Nat) (lastLine : Option Nat)
    (braces parens : Int) : OpenClass :=
  { o with
    decl := { o.decl with
      lines := o.decl.lines ++ ls
      ctor := some { text := Text.unlines ls, firstLine, lastLine } }
    braces
    parens }

/-- A line of a constructor, and what it adds to the open parentheses. -/
structure CtorLine (weight parens : Int) (line : Text) : Prop where
  weighs : Line.Weighs weight line
  noHeader : Header.isHeader line = false
  nonempty : line ≠ []
  parens : Line.parens (Line.blankStrings line) = parens

section Constructor

variable {line : Text} {weight paren : Int}

theorem readLine_first (h : CtorLine weight paren line) (missing : o.decl.ctor = none)
    (depth : o.braces = 1) (opens : Line.opensConstructor line o.decl.name) (opened : o.opened)
    (still : o.parens + paren ≠ 0) :
    o.readLine lineNo previous line =
      o.building [line] lineNo none (o.braces + weight) (o.parens + paren) := by
  have started : (o.count line).startConstructor o.braces lineNo line = { o.count line with
      decl := { (o.count line).decl with ctor := some { text := [], firstLine := lineNo } } } := by
    rw [startConstructor, if_pos]
    simp only [Bool.and_eq_true, beq_iff_eq]
    exact ⟨⟨by simp [count, missing], depth⟩, opens⟩
  have level : (o.parens + paren == 0) = false := by simpa using still
  rw [readLine, started]
  simp [inConstructor, extendConstructor, count, building, h.weighs.code, h.parens, opened, level,
    Text.unlines_singleton]

theorem readLine_building {ls : List Text} {firstLine : Nat} {braces parens : Int}
    (h : CtorLine weight paren line) (nonempty : ls ≠ []) (text : Text.unlines ls ≠ [])
    (opened : o.opened) :
    (o.building ls firstLine none braces parens).readLine lineNo previous line =
      o.building (ls ++ [line]) firstLine (if parens + paren = 0 then some lineNo else none)
        (braces + weight) (parens + paren) := by
  have joined : Text.unlines (ls ++ [line]) = Text.unlines ls ++ '\n' :: line :=
    Text.unlines_append nonempty (by simp)
  have started : ((o.building ls firstLine none braces parens).count line).startConstructor
      (o.building ls firstLine none braces parens).braces lineNo line =
      (o.building ls firstLine none braces parens).count line := by
    rw [startConstructor, if_neg (by simp [building, count])]
  rw [readLine, started]
  simp [inConstructor, extendConstructor, count, building, h.weighs.code, h.parens, opened, joined,
    text]

/-- The lines of parameters are taken in, and the list stays open. -/
theorem reads_params {params : List Text} {read : List Text} {first : Nat} (nonempty : read ≠ [])
    (text : Text.unlines read ≠ []) (opened : o.opened)
    (each : ∀ line ∈ params, CtorLine 0 0 line) :
    (o.building read first none 2 1).Reads lineNo previous params
    (o.building (read ++ params) first none 2 1) := by
  induction params generalizing read lineNo previous with
  | nil =>
      rw [List.append_nil]
      exact reads_nil _ _ _
  | cons line rest ih =>
      have grown : Text.unlines (read ++ [line]) ≠ [] := by
        rw [Text.unlines_append nonempty (by simp)]
        simp
      have step : (o.building read first none 2 1).Reads lineNo previous [line]
          (o.building (read ++ [line]) first none 2 1) := by
        have here := each line (by simp)
        apply reads_line here.noHeader
        · rw [readLine_building here nonempty text opened]
          rfl
        · rw [isClosed, Bool.and_eq_false_iff]
          exact .inr rfl
      have behind : (o.building (read ++ [line]) first none 2 1).Reads (lineNo + 1) line rest
          (o.building (read ++ [line] ++ rest) first none 2 1) :=
        ih (by simp) grown fun l member => each l (List.mem_cons_of_mem _ member)
      simpa using step.append behind

/-- The lines of a constructor are taken in as its text. -/
theorem reads_constructor {first last : Text} {params : List Text} (missing : o.decl.ctor = none)
    (depth : o.braces = 1) (level : o.parens = 0) (opened : o.opened)
    (opens : Line.opensConstructor first o.decl.name) (opening : CtorLine 1 1 first)
    (inside : ∀ line ∈ params, CtorLine 0 0 line) (closing : CtorLine (-1) (-1) last) :
    o.Reads lineNo previous (first :: (params ++ [last]))
      (o.building (first :: (params ++ [last])) lineNo
        (some (lineNo + params.length + 1)) 1 0) := by
  have start : o.Reads lineNo previous [first] (o.building [first] lineNo none 2 1) := by
    apply reads_line opening.noHeader
    · rw [readLine_first opening missing depth opens opened (by omega), depth, level]
      rfl
    · rw [isClosed, Bool.and_eq_false_iff]
      exact .inr rfl
  have open_ : Text.unlines (first :: params) ≠ [] := by
    cases params with
    | nil => exact opening.nonempty
    | cons next rest =>
        rw [Text.unlines_cons_cons]
        simp
  have params_ : (o.building [first] lineNo none 2 1).Reads (lineNo + 1) first params
      (o.building (first :: params) lineNo none 2 1) :=
    reads_params (by simp) opening.nonempty opened inside
  have finish : (o.building (first :: params) lineNo none 2 1).Reads (lineNo + params.length + 1)
      (params.getLast?.getD first) [last]
      (o.building (first :: (params ++ [last])) lineNo
        (some (lineNo + params.length + 1)) 1 0) := by
    apply reads_line closing.noHeader
    · rw [readLine_building closing (by simp) open_ opened]
      rfl
    · rw [isClosed, Bool.and_eq_false_iff]
      exact .inr rfl
  rw [show lineNo + params.length + 1 = lineNo + 1 + params.length by omega] at finish ⊢
  exact start.append (params_.append finish)

end Constructor

end OpenClass

end ValueClass.Dart
