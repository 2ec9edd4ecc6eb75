import ValueClass.Proofs.Dart.Held

/-! # The top of a class body

How many brackets are open behind a line of a class, and which lines the unnamed
constructor takes, both said of the lines of the class. The scanner counts along and
marks the constructor in the class it holds; behind every line the two agree.
-/

namespace ValueClass.Dart

/-! ## Counted along the lines -/

namespace Line

/-- The braces that are open behind some lines, string literals apart. -/
def openBraces (lines : List Text) : Int :=
  lines.foldl (fun depth line => depth + braces (blankStrings line)) 0

/-- The parentheses that are open behind some lines, string literals apart. -/
def openParens (lines : List Text) : Int :=
  lines.foldl (fun depth line => depth + parens (blankStrings line)) 0

theorem openBraces_concat (lines : List Text) (line : Text) :
    openBraces (lines ++ [line]) = openBraces lines + braces (blankStrings line) := by
  simp [openBraces]

theorem openParens_concat (lines : List Text) (line : Text) :
    openParens (lines ++ [line]) = openParens lines + parens (blankStrings line) := by
  simp [openParens]

end Line

namespace ClassDecl

/-- A line below the header starts as the unnamed constructor does, where one brace is
    open. -/
structure OpensAt (c : ClassDecl) (k : Nat) : Prop where
  below : 0 < k
  top : Line.openBraces (c.lines.take k) = 1
  opening : ∃ line, c.lines[k]? = some line ∧ Line.opensConstructor line c.name

inductive InConstructor (c : ClassDecl) : Nat → Prop
  /-- The first line that opens it does. -/
  | opens {k : Nat} (here : c.OpensAt k) (first : ∀ i < k, ¬ c.OpensAt i) : InConstructor c k
  /-- With a line the next one does, as long as a parenthesis is open. -/
  | goesOn {k : Nat} (above : InConstructor c k)
    (open_ : Line.openParens (c.lines.take (k + 1)) ≠ 0) (within : k + 1 < c.lines.length) :
    InConstructor c (k + 1)

variable {c d : ClassDecl} {k : Nat}

theorem OpensAt.lt_length (h : c.OpensAt k) : k < c.lines.length := by
  obtain ⟨line, here, -⟩ := h.opening
  exact (List.getElem?_eq_some_iff.mp here).1

theorem InConstructor.exists_opensAt (h : c.InConstructor k) : ∃ i, c.OpensAt i := by
  induction h with
  | opens here => exact ⟨_, here⟩
  | goesOn _ _ _ ih => exact ih

/-- Two classes have their first lines in common. -/
structure Shares (c d : ClassDecl) (n : Nat) : Prop where
  name : c.name = d.name
  lines : c.lines.take n = d.lines.take n

theorem Shares.symm {n : Nat} (h : c.Shares d n) : d.Shares c n :=
  ⟨h.name.symm, h.lines.symm⟩

theorem Shares.mono {m n : Nat} (h : c.Shares d n) (le : m ≤ n) : c.Shares d m := by
  refine ⟨h.name, ?_⟩
  rw [← Nat.min_eq_left le, ← List.take_take, h.lines, List.take_take]

theorem Shares.getElem? {n i : Nat} (h : c.Shares d n) (lt : i < n) :
    c.lines[i]? = d.lines[i]? := by
  rw [← List.getElem?_take_of_lt lt, h.lines, List.getElem?_take_of_lt lt]

theorem OpensAt.of_shares (h : c.OpensAt k) (shares : c.Shares d (k + 1)) : d.OpensAt k := by
  obtain ⟨below, top, line, here, opening⟩ := h
  refine ⟨below, (shares.mono (Nat.le_succ k)).lines ▸ top, line, ?_, shares.name ▸ opening⟩
  rw [← shares.getElem? (Nat.lt_succ_self k), here]

theorem InConstructor.of_shares (h : c.InConstructor k) (shares : c.Shares d (k + 1)) :
    d.InConstructor k := by
  induction h with
  | opens here first =>
      refine .opens (here.of_shares shares) fun i lt there => first i lt ?_
      exact there.of_shares (shares.mono (by omega)).symm
  | @goesOn k _ open_ within ih =>
      have before := shares.mono (Nat.le_succ (k + 1))
      have there : d.lines[k + 1]? = some c.lines[k + 1] := by
        rw [← shares.getElem? (Nat.lt_succ_self _), List.getElem?_eq_getElem within]
      exact .goesOn (ih before) (before.lines ▸ open_) (List.getElem?_eq_some_iff.mp there).1

theorem inConstructor_congr (shares : c.Shares d (k + 1)) : c.InConstructor k ↔ d.InConstructor k :=
  ⟨fun h => h.of_shares shares, fun h => h.of_shares shares.symm⟩

end ClassDecl

/-! ## The class that is held -/

namespace OpenClass

variable {o : OpenClass} {lineNo : Nat} {previous line : Text}

theorem readLine_depth (o : OpenClass) (lineNo : Nat) (previous line : Text) :
    (o.readLine lineNo previous line).braces = o.braces + Line.braces (Line.blankStrings line) ∧
      (o.readLine lineNo previous line).parens = o.parens +
        Line.parens (Line.blankStrings line) := by
  have started : ((o.count line).startConstructor o.braces lineNo line).braces =
      (o.count line).braces ∧
      ((o.count line).startConstructor o.braces lineNo line).parens = (o.count line).parens := by
    rw [startConstructor]
    split <;> exact ⟨rfl, rfl⟩
  rw [readLine]
  generalize (o.count line).startConstructor o.braces lineNo line = next at started ⊢
  split
  · rw [extendConstructor]
    split <;> exact started
  · rw [addField]
    split
    · split <;> exact started
    · exact started

/-- What the scanner knows of the constructor behind line `n` of the buffer, which is line
    `k` of the class. -/
structure Marks (o : OpenClass) (n k : Nat) : Prop where
  missing : o.decl.ctor = none ↔ ∀ i, ¬ o.decl.OpensAt i
  here : (∃ ctor, o.decl.ctor = some ctor ∧ ∀ last, ctor.lastLine = some last → last = n) ↔
    o.decl.InConstructor k
  pending : o.inConstructor ↔ o.decl.InConstructor k ∧ Line.openParens o.decl.lines ≠ 0

theorem inConstructor_iff :
    o.inConstructor ↔ ∃ ctor, o.decl.ctor = some ctor ∧ ctor.lastLine = none := by
  rw [inConstructor]
  cases o.decl.ctor <;> simp

theorem Marks.of_reads {n k : Nat} {ctor : Constructor}
    (depth : o.parens = Line.openParens o.decl.lines) (inside : o.decl.InConstructor k)
    (found : o.decl.ctor = some ctor)
    (ending : ctor.lastLine = if o.parens == 0 then some n else none) : o.Marks n k := by
  obtain ⟨i, opens⟩ := inside.exists_opensAt
  refine ⟨?_, ?_, ?_⟩
  · rw [found]
    exact ⟨fun missing => (by cases missing), fun missing => absurd opens (missing i)⟩
  · exact ⟨fun _ => inside,
      fun _ => ⟨ctor, found, fun last same => extendConstructor_last _ (ending ▸ same)⟩⟩
  · rw [inConstructor_iff, ← depth]
    simp [found, ending, inside]

theorem Marks.of_passes {n k : Nat} (missing : o.decl.ctor = none ↔ ∀ i, ¬ o.decl.OpensAt i)
    (outside : ¬ o.decl.InConstructor k)
    (complete : ∀ ctor, o.decl.ctor = some ctor → ∃ last, ctor.lastLine = some last ∧ last < n) :
    o.Marks n k := by
  refine ⟨missing, ⟨?_, fun inside => absurd inside outside⟩,
    ⟨?_, fun inside => absurd inside.1 outside⟩⟩
  · rintro ⟨ctor, found, here⟩
    obtain ⟨last, ending, above⟩ := complete ctor found
    exact absurd (here last ending) (Nat.ne_of_lt above)
  · rw [inConstructor_iff]
    rintro ⟨ctor, found, pending⟩
    obtain ⟨last, ending, -⟩ := complete ctor found
    rw [pending] at ending
    cases ending

end OpenClass

namespace Held

variable {buffer : List Text} {n : Nat} {o : OpenClass}

theorem depth (held : Held buffer n o) :
    o.braces = Line.openBraces o.decl.lines ∧ o.parens = Line.openParens o.decl.lines := by
  induction held with
  | header => exact ⟨by simp [OpenClass.start, OpenClass.count, Line.openBraces],
      by simp [OpenClass.start, OpenClass.count, Line.openParens]⟩
  | @body n line o held open_ here body ih =>
      obtain ⟨braces, parens⟩ := OpenClass.readLine_depth o (n + 1) (lineAbove buffer (n + 1)) line
      rw [OpenClass.readLine_lines, Line.openBraces_concat, Line.openParens_concat, braces, parens,
        ih.1, ih.2]
      exact ⟨rfl, rfl⟩

/-- A constructor that is complete was complete behind a line that was read. -/
theorem ctor_le (held : Held buffer n o) {ctor : Constructor} {last : Nat}
    (found : o.decl.ctor = some ctor) (complete : ctor.lastLine = some last) : last ≤ n := by
  induction held generalizing ctor last with
  | header => cases found
  | @body n line o held open_ here body ih =>
      cases OpenClass.readLine_cases o (n + 1) (lineAbove buffer (n + 1)) line with
      | opens stop none top opening ending new fields =>
          rw [new] at found
          cases found
          exact Nat.le_of_eq (OpenClass.extendConstructor_last _ (ending.symm.trans complete))
      | continues old stop found' pending ending new fields =>
          rw [new] at found
          cases found
          exact Nat.le_of_eq (OpenClass.extendConstructor_last _ (ending.symm.trans complete))
      | declares f idle opening place depth same fields =>
          rw [same] at found
          exact Nat.le_succ_of_le (ih found complete)
      | passes idle opening same fields =>
          rw [same] at found
          exact Nat.le_succ_of_le (ih found complete)

theorem opensAt_readLine_iff (held : Held buffer n o) {k : Nat}
    (size : o.decl.lines.length = k + 1) (lineNo : Nat) (previous line : Text) :
    (o.readLine lineNo previous line).decl.OpensAt (k + 1) ↔
      o.braces = 1 ∧ Line.opensConstructor line o.decl.name := by
  have lines := OpenClass.readLine_lines o lineNo previous line
  have above : (o.readLine lineNo previous line).decl.lines.take (k + 1) = o.decl.lines := by
    rw [lines, ← size, List.take_left]
  have here : (o.readLine lineNo previous line).decl.lines[k + 1]? = some line := by
    rw [lines, ← size, List.getElem?_concat_length]
  constructor
  · rintro ⟨-, top, other, there, opening⟩
    rw [here] at there
    cases there
    rw [above, ← held.depth.1] at top
    exact ⟨top, by rwa [OpenClass.readLine_name] at opening⟩
  · rintro ⟨top, opening⟩
    refine ⟨Nat.succ_pos k, ?_, line, here, by rwa [OpenClass.readLine_name]⟩
    rw [above, ← held.depth.1, top]

theorem shares_readLine {k : Nat} (size : o.decl.lines.length = k) (lineNo : Nat)
    (previous line : Text) :
    (o.readLine lineNo previous line).decl.Shares o.decl k := by
  refine ⟨OpenClass.readLine_name .., ?_⟩
  rw [OpenClass.readLine_lines, List.take_append_of_le_length (Nat.le_of_eq size.symm)]

/-- A line belongs to the constructor when it is open above the line, or when the line is
    the first that opens it. -/
theorem inConstructor_readLine_iff (held : Held buffer n o) {k : Nat}
    (size : o.decl.lines.length = k + 1) (marks : o.Marks n k) (lineNo : Nat)
    (previous line : Text) :
    (o.readLine lineNo previous line).decl.InConstructor (k + 1) ↔
      o.inConstructor ∨ o.decl.ctor = none ∧ o.braces = 1 ∧
        Line.opensConstructor line o.decl.name := by
  have opens := held.opensAt_readLine_iff size lineNo previous line
  have shares := shares_readLine size lineNo previous line
  have above : (o.readLine lineNo previous line).decl.lines.take (k + 1) = o.decl.lines := by
    rw [shares.lines, ← size, List.take_length]
  constructor
  · intro inside
    cases inside with
    | opens here first =>
        refine .inr ⟨marks.missing.mpr fun i there => ?_, opens.mp here⟩
        have lt := size ▸ there.lt_length
        exact first i lt (there.of_shares (shares.symm.mono lt))
    | goesOn inside open_ _ =>
        exact .inl (marks.pending.mpr ⟨inside.of_shares shares, above ▸ open_⟩)
  · rintro (pending | ⟨missing, opening⟩)
    · obtain ⟨inside, open_⟩ := marks.pending.mp pending
      refine .goesOn (inside.of_shares shares.symm) (above.symm ▸ open_) ?_
      rw [OpenClass.readLine_lines, List.length_append, size, List.length_singleton]
      exact Nat.lt_succ_self _
    · refine .opens (opens.mpr opening) fun i lt there => ?_
      exact marks.missing.mp missing i (there.of_shares (shares.mono lt))

/-- The scanner has marked the constructor as the lines of the class say. -/
theorem marks (held : Held buffer n o) {k : Nat} (size : o.decl.lines.length = k + 1) :
    o.Marks n k := by
  induction held generalizing k with
  | @header n line here header =>
      have none : ∀ i, ¬ ((OpenClass.start (n + 1) line).count line).decl.OpensAt i := by
        intro i opens
        have low : i < 1 := opens.lt_length
        exact absurd opens.below (by omega)
      refine .of_passes ⟨fun _ => none, fun _ => rfl⟩ (fun inside => ?_)
        (fun ctor found => by cases found)
      obtain ⟨i, opens⟩ := inside.exists_opensAt
      exact none i opens
  | @body n line o held open_ here body ih =>
      have place := held.place
      have first := held.firstLine_pos
      have now := Held.body held open_ here body
      rw [OpenClass.readLine_lines, List.length_append, List.length_singleton,
        Nat.add_right_cancel_iff] at size
      obtain ⟨j, rfl⟩ : ∃ j, k = j + 1 := ⟨k - 1, by omega⟩
      have before := ih size
      have inside := held.inConstructor_readLine_iff size before (n + 1)
          (lineAbove buffer (n + 1)) line
      have stays : (∀ ctor, o.decl.ctor = some ctor → ctor.lastLine ≠ none) →
          ¬ (o.decl.ctor = none ∧ o.braces = 1 ∧ Line.opensConstructor line o.decl.name) →
          (o.readLine (n + 1) (lineAbove buffer (n + 1)) line).decl.ctor = o.decl.ctor →
          (o.readLine (n + 1) (lineAbove buffer (n + 1)) line).Marks (n + 1) (j + 1) := by
        intro idle opening same
        have closed : ¬ o.inConstructor := by
          rw [OpenClass.inConstructor_iff]
          exact fun ⟨ctor, found, pending⟩ => idle ctor found pending
        refine .of_passes ?_ (fun there => (inside.mp there).elim closed opening) ?_
        · rw [same, before.missing]
          have shares := shares_readLine size (n + 1) (lineAbove buffer (n + 1)) line
          constructor
          · intro none i opens
            have lt := opens.lt_length
            rw [OpenClass.readLine_lines, List.length_append, size, List.length_singleton] at lt
            rcases Nat.lt_succ_iff_lt_or_eq.mp lt with above | rfl
            · exact none i (opens.of_shares (shares.mono above))
            · exact opening ⟨before.missing.mpr none,
                (held.opensAt_readLine_iff size _ _ _).mp opens⟩
          · intro none i opens
            exact none i (opens.of_shares (shares.symm.mono (size ▸ opens.lt_length)))
        · intro ctor found
          rw [same] at found
          obtain ⟨last, ending⟩ := Option.ne_none_iff_exists'.mp (idle ctor found)
          exact ⟨last, ending, Nat.lt_succ_of_le (held.ctor_le found ending)⟩
      cases OpenClass.readLine_cases o (n + 1) (lineAbove buffer (n + 1)) line with
      | opens last missing top opening ending ctor fields =>
          exact .of_reads now.depth.2 (inside.mpr (.inr ⟨missing, top, opening⟩)) ctor ending
      | continues old last found pending ending ctor fields =>
          exact .of_reads now.depth.2
            (inside.mpr (.inl (OpenClass.inConstructor_iff.mpr ⟨old, found, pending⟩))) ctor ending
      | declares f idle opening place depth same fields => exact stays idle opening same
      | passes idle opening same fields => exact stays idle opening same

end Held

end ValueClass.Dart
