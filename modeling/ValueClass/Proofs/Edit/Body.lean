import ValueClass.Edit.Plan
import ValueClass.Proofs.Member.Calm
import ValueClass.Proofs.Text.Lines

/-! # The body of a class that is written back

Lines that nothing replaces stay, lines whose text was written already go, and a calm
body is calm again whatever calm texts take the place of its members.
-/

namespace ValueClass.Dart

namespace Draft

variable {d : Draft} {r : Replacement} {written : List Text} {lineNo : Nat}

def shown (t : Text) : List Text :=
  if t.isEmpty then [] else [t]

theorem shown_eq_nil_iff {t : Text} : shown t = [] ↔ t = [] := by
  cases t <;> simp [shown]

theorem insertedAfter_eq_nil (nothing : d.inserted = []) (lineNo : Nat) :
    d.insertedAfter lineNo = [] := by
  simp [insertedAfter, nothing]

theorem insertedAfter_eq {lastField : Nat} (last : d.decl.lastFieldLine? = some lastField)
    (lineNo : Nat) :
    d.insertedAfter lineNo = if lineNo = lastField then shown d.inserted else [] := by
  rw [insertedAfter, last]
  by_cases same : lineNo = lastField
  · cases d.inserted <;> simp [shown, same]
  · rw [if_neg same, if_neg]
    simp only [Bool.and_eq_true, beq_iff_eq, Option.some.injEq, not_and]
    exact fun _ other => same other.symm

theorem bodyTexts_covered {covered rest : List Text}
    (at_ : ∀ i, lineNo ≤ i → i < lineNo + covered.length → d.replacementAt? i = some r ∧
      d.insertedAfter i = [])
    (present : r.text ∈ written) :
    d.bodyTexts written lineNo (covered ++ rest) = d.bodyTexts written
      (lineNo + covered.length) rest := by
  induction covered generalizing lineNo with
  | nil => rfl
  | cons line more ih =>
      obtain ⟨covers, nothing⟩ := at_ lineNo (Nat.le_refl _) (by simp)
      have here : d.lineTexts written lineNo (more ++ rest).isEmpty line = ([], written) := by
        rw [lineTexts, covers]
        simp [present]
      rw [List.cons_append, bodyTexts, here]
      dsimp only
      rw [nothing, List.nil_append, List.nil_append,
        ih fun i low high => at_ i (by omega) (by simp only [List.length_cons]; omega),
        List.length_cons, show lineNo + 1 + more.length = lineNo + (more.length + 1) by omega]

theorem bodyTexts_free {free rest : List Text} (below : rest ≠ [])
    (at_ : ∀ i, lineNo ≤ i → i < lineNo + free.length → d.replacementAt? i = none ∧
      d.insertedAfter i = []) :
    d.bodyTexts written lineNo (free ++ rest) = free ++ d.bodyTexts written
      (lineNo + free.length) rest := by
  induction free generalizing lineNo with
  | nil => rfl
  | cons line more ih =>
      obtain ⟨uncovered, nothing⟩ := at_ lineNo (Nat.le_refl _) (by simp)
      have middle : (more ++ rest).isEmpty = false := by simp [below]
      have here : d.lineTexts written lineNo false line = ([line], written) := by
        rw [lineTexts, uncovered]
        rfl
      rw [List.cons_append, bodyTexts, middle, here]
      dsimp only
      rw [nothing, ih fun i low high => at_ i (by omega) (by simp only [List.length_cons]; omega),
        List.length_cons, show lineNo + 1 + more.length = lineNo + (more.length + 1) by omega]
      rfl

theorem bodyTexts_inserted {free rest : List Text} {line : Text} (below : rest ≠ [])
    (uncovered : ∀ i, lineNo ≤ i → i ≤ lineNo + free.length → d.replacementAt? i = none)
    (nothing : ∀ i, lineNo ≤ i → i < lineNo + free.length → d.insertedAfter i = []) :
    d.bodyTexts written lineNo (free ++ line :: rest) =
      free ++ line :: (d.insertedAfter (lineNo + free.length) ++
        d.bodyTexts written (lineNo + free.length + 1) rest) := by
  have here : d.lineTexts written (lineNo + free.length) false line = ([line], written) := by
    rw [lineTexts, uncovered _ (by omega) (by omega)]
    rfl
  have middle : rest.isEmpty = false := by simpa using below
  rw [bodyTexts_free (by simp) fun i low high => ⟨uncovered i low (by omega), nothing i low high⟩,
    bodyTexts, middle, here]
  simp only [List.cons_append, List.nil_append]

theorem bodyTexts_replaced {line : Text} {covered rest : List Text}
    (at_ : ∀ i, lineNo ≤ i → i < lineNo + (line :: covered).length →
      d.replacementAt? i = some r ∧ d.insertedAfter i = []) :
    d.bodyTexts [] lineNo (line :: covered ++ rest) =
      r.text :: d.bodyTexts [r.text] (lineNo + (line :: covered).length) rest := by
  obtain ⟨found, nothing⟩ := at_ lineNo (Nat.le_refl _) (by simp)
  have here : d.lineTexts [] lineNo (covered ++ rest).isEmpty line = ([r.text], [r.text]) := by
    rw [lineTexts, found]
    rfl
  have behind : d.bodyTexts [r.text] (lineNo + 1) (covered ++ rest) =
      d.bodyTexts [r.text] (lineNo + 1 + covered.length) rest :=
    bodyTexts_covered (fun i low high => at_ i (by omega) (by simp only [List.length_cons]; omega))
      (by simp)
  rw [List.cons_append, bodyTexts, here]
  dsimp only
  rw [nothing, behind, List.length_cons,
    show lineNo + 1 + covered.length = lineNo + (covered.length + 1) by omega]
  rfl

/-- A draft that replaces nothing is written back with its constructor behind the last field
    and its members before the last line. -/
theorem render_unreplaced (nothing : d.replacements = []) {header closing : Text}
    {fields inner : List Text} (lines : d.decl.lines = header :: (fields ++ (inner ++ [closing])))
    (nonempty : fields ≠ [])
    (last : d.decl.lastFieldLine? = some (d.decl.firstLine + fields.length)) :
    d.render = Text.unlines ((if d.headerChanged then d.decl.header.render header else header) ::
      (fields ++ ((if d.inserted.isEmpty then [] else [d.inserted]) ++
        (inner ++ ((if d.appended.isEmpty then [] else [d.appended]) ++ [closing]))))) := by
  have uncovered : ∀ i, d.replacementAt? i = none := by
    intro i
    rw [replacementAt?, nothing]
    rfl
  have skips : ∀ i, i ≠ d.decl.firstLine + fields.length → d.insertedAfter i = [] := by
    intro i other
    rw [insertedAfter_eq last, if_neg other]
  have inserts : d.insertedAfter (d.decl.firstLine + fields.length) = if d.inserted.isEmpty then []
      else [d.inserted] := by
    rw [insertedAfter_eq last, if_pos rfl, shown]
  obtain ⟨others, line, rfl⟩ : ∃ others line, fields = others ++ [line] := by
    rcases List.eq_nil_or_concat fields with none | ⟨others, line, same⟩
    · exact absurd none nonempty
    · exact ⟨others, line, by rw [same, List.concat_eq_append]⟩
  rw [List.length_append, List.length_singleton] at skips inserts
  have front : d.bodyTexts [] (d.decl.firstLine + 1) (others ++ line :: (inner ++ [closing])) = _ :=
    bodyTexts_inserted (by simp) (fun i _ _ => uncovered i) fun i low high => skips i (by omega)
  have back : d.bodyTexts [] (d.decl.firstLine + 1 + others.length + 1) (inner ++ [closing]) = _ :=
    bodyTexts_free (by simp) fun i low high => ⟨uncovered i, skips i (by omega)⟩
  have final : ∀ i, i ≠ d.decl.firstLine + (others.length + 1) →
      d.bodyTexts [] i [closing] = (if d.appended.isEmpty then [] else [d.appended]) ++
        [closing] := by
    intro i other
    have texts : (d.lineTexts [] i true closing).1 = (if d.appended.isEmpty then []
      else [d.appended]) ++ [closing] := by
      rw [lineTexts, uncovered]
      cases d.appended.isEmpty <;> rfl
    rw [bodyTexts, List.isEmpty_nil, skips i other]
    dsimp only
    rw [texts, bodyTexts, List.append_nil, List.append_nil]
  rw [render, lines]
  dsimp only
  rw [skips d.decl.firstLine (by omega), List.nil_append, List.append_assoc, List.singleton_append,
    front, back, final _ (by omega),
    show d.decl.firstLine + 1 + others.length = d.decl.firstLine + (others.length + 1) by omega,
    inserts]
  simp only [List.append_assoc, List.singleton_append]

/-! ## Calm bodies -/

/-- The replacements that reach some lines put calm texts there, and end where there is no
    shelter. -/
def CalmFrom (d : Draft) (className : Text) (lineNo : Nat) (ls : List Text) : Prop :=
  ∀ r ∈ d.replacements, lineNo ≤ r.span.last → Calm className false r.text.lines ∧
    r.span.EndsIn lineNo ls

section Calm

variable {className line : Text} {rest : List Text}

theorem CalmFrom.tail (h : d.CalmFrom className lineNo (line :: rest)) :
    d.CalmFrom className (lineNo + 1) rest := by
  intro r member later
  obtain ⟨calm, ends⟩ := h r member (by omega)
  exact ⟨calm, ends.tail later⟩

theorem covers_of_replacementAt? (found : d.replacementAt? lineNo = some r) :
    r ∈ d.replacements ∧ r.span.first ≤ lineNo ∧ lineNo ≤ r.span.last := by
  have covers := List.find?_some (p := fun r : Replacement => r.span.covers lineNo) found
  simp only [Span.covers, Bool.and_eq_true, decide_eq_true_eq] at covers
  exact ⟨List.mem_of_find?_eq_some found, covers⟩

theorem calm_covered (calm : Calm className false r.text.lines)
    (found : d.replacementAt? lineNo = some r) {isLast sheltered : Bool} :
    Calm className sheltered ((d.lineTexts written lineNo isLast line).1.flatMap Text.lines) := by
  rw [lineTexts, found]
  dsimp only
  split
  · exact .nil
  · simpa using calm.exposed

theorem shelters_of_covered (h : d.CalmFrom className lineNo (line :: rest))
    (found : d.replacementAt? lineNo = some r) (free : d.replacementAt? (lineNo + 1) = none)
    (sheltered : Bool) : shelters sheltered line = false := by
  obtain ⟨member, first, last⟩ := covers_of_replacementAt? found
  have uncovered : r.span.covers (lineNo + 1) = false := by
    rw [replacementAt?, List.find?_eq_none] at free
    simpa using free r member
  have ends : r.span.last ≤ lineNo := by
    simp only [Span.covers, Bool.and_eq_false_iff, decide_eq_false_iff_not] at uncovered
    omega
  exact (h r member last).2.isEnd ends sheltered

/-- The line that closes a class is calm with what is written in its place or before it. -/
theorem calm_closingTexts {beyond : List Text} {closing : Text} {old new : Bool}
    (calm : Calm className old (closing :: beyond)) (closes : Line.braces closing = -1)
    (whole : '\n' ∉ closing) (appended : d.appended ≠ [] → Calm className false d.appended.lines)
    (each : d.CalmFrom className lineNo [closing]) :
    Calm className new ((d.lineTexts written lineNo true closing).1.flatMap Text.lines ++
      beyond) := by
  have own : closing.lines = [closing] := Text.lines_of_notMem whole
  cases calm with
  | cons mild inert below =>
      rw [isEnd_of_closing closes old] at below
      have tame : Tame className closing := by
        rcases inert with tame | ⟨-, level⟩
        · exact tame
        · omega
      have last : ∀ sheltered, Calm className sheltered (closing :: beyond) :=
        fun sheltered => .cons mild (.inl tame) below.exposed
      cases found : d.replacementAt? lineNo with
      | some r =>
          obtain ⟨member, -, reaches⟩ := covers_of_replacementAt? found
          exact (calm_covered (each r member reaches).1 found).append below.exposed
      | none =>
          rw [lineTexts, found]
          dsimp only
          split
          · rename_i some
            have some : d.appended ≠ [] := by simpa using some
            simp only [List.flatMap_cons, List.flatMap_nil, own, List.append_nil, List.append_assoc,
              List.singleton_append]
            exact (appended some).exposed.append (last _)
          · simpa [own] using last new

-- The induction keeps two states of shelter, of the old lines and of the new ones. Below a line
-- that stays the new state follows the old one; below one that goes nothing is known of the new
-- state, but the next line that stays stands where the old state gives no shelter.
/-- A calm body with calm texts in the place of its members is calm. -/
theorem calm_bodyTexts {inner beyond : List Text} {closing : Text} {old new : Bool}
    (calm : Calm className old (inner ++ closing :: beyond)) (closes : Line.braces closing = -1)
    (whole : ∀ line ∈ inner ++ [closing], '\n' ∉ line)
    (appended : d.appended ≠ [] → Calm className false d.appended.lines)
    (each : d.CalmFrom className lineNo (inner ++ [closing]))
    (skips : ∀ i, lineNo ≤ i → d.insertedAfter i = [])
    (follows : d.replacementAt? lineNo = none → old → new) :
    Calm className new ((d.bodyTexts written lineNo (inner ++ [closing])).flatMap Text.lines ++
      beyond) := by
  induction inner generalizing lineNo written old new with
  | nil =>
      rw [List.nil_append, bodyTexts]
      dsimp only
      rw [skips lineNo (Nat.le_refl _), bodyTexts, List.append_nil, List.append_nil]
      exact calm_closingTexts calm closes (whole closing (by simp)) appended each
  | cons line inner ih =>
      have own : line.lines = [line] := Text.lines_of_notMem (whole line (by simp))
      have wholeInner : ∀ l ∈ inner ++ [closing], '\n' ∉ l :=
        fun l member => whole l (List.mem_cons_of_mem _ member)
      have skipsInner : ∀ i, lineNo + 1 ≤ i → d.insertedAfter i = [] :=
        fun i later => skips i (by omega)
      have middle : (inner ++ [closing]).isEmpty = false := by simp
      cases calm with
      | cons mild inert below =>
          rw [List.cons_append, bodyTexts]
          dsimp only
          rw [skips lineNo (Nat.le_refl _), List.append_nil, List.flatMap_append, List.append_assoc,
            middle]
          cases found : d.replacementAt? lineNo with
          | some r =>
              obtain ⟨member, -, reaches⟩ := covers_of_replacementAt? found
              refine (calm_covered (each r member reaches).1 found).append
                (ih below wholeInner each.tail skipsInner ?_)
              intro free sheltered
              rw [shelters_of_covered each found free] at sheltered
              cases sheltered
          | none =>
              have stays : d.lineTexts written lineNo false line = ([line], written) := by
                rw [lineTexts, found]
                rfl
              rw [stays]
              simp only [List.flatMap_cons, List.flatMap_nil, own, List.append_nil,
                List.singleton_append]
              refine .cons mild (inert.imp_right fun level => ⟨follows found level.1, level.2⟩) ?_
              exact ih below wholeInner each.tail skipsInner fun _ => shelters_mono (follows found)

end Calm

end Draft

end ValueClass.Dart
