import ValueClass.Proofs.Dart.LibraryBlock

/-! # Statements over several lines

A directive may go on over the lines below its first one, as with `show`, `hide` and
`as`. Reading takes in single lines: it ends at the first line that is no directive, so
a statement that goes on can only be the last of the block, and only its first line is
sorted. Where another directive is written behind it, the rest of the statement is left
below that one. A new block goes below the comments that lead a buffer, and a statement
may start on a line that opens with one.
-/

namespace ValueClass

theorem last_of_pairwise {α : Type} {R : α → α → Prop} {l : List α} {a : α} (ordered : l.Pairwise R)
    (member : a ∈ l) : ∃ front last, l = front ++ [last] ∧ (last = a ∨ R a last) := by
  obtain ⟨front, last, rfl⟩ : ∃ front last, l = front ++ [last] :=
    ⟨l.dropLast, l.getLast (List.ne_nil_of_mem member), (List.dropLast_append_getLast _).symm⟩
  refine ⟨front, last, rfl, ?_⟩
  rcases List.mem_append.mp member with inside | same
  · exact .inr ((List.pairwise_append.mp ordered).2.2 a inside last (by simp))
  · exact .inl (List.mem_singleton.mp same).symm

namespace Dart

/-- Lines that a statement takes up: the lines that it goes on in are not read as directives,
    which only a name like `part` alone in front of a line would be, and the last one is not
    blank. -/
structure IsStatement (lines front : List Text) (head : Text) (tail behind : List Text) : Prop where
  place : lines = front ++ head :: (tail ++ behind)
  continued : ∀ line ∈ tail, isDirective line = false
  ends : ∀ line, (head :: tail).getLast? = some line → line.trim ≠ []

namespace IsStatement

variable {lines front : List Text} {head : Text} {tail behind : List Text}

theorem getElem?_head (h : IsStatement lines front head tail behind) :
    lines[front.length]? = some head := by
  rw [h.place, List.getElem?_append_right (Nat.le_refl _), Nat.sub_self, List.getElem?_cons_zero]

theorem getElem?_tail (h : IsStatement lines front head tail behind) {i : Nat}
    (low : front.length < i) (high : i ≤ front.length + tail.length) :
    ∃ line ∈ tail, lines[i]? = some line := by
  obtain ⟨j, rfl⟩ : ∃ j, i = front.length + (j + 1) := ⟨i - front.length - 1, by omega⟩
  have inside : j < tail.length := by omega
  refine ⟨tail[j], List.getElem_mem inside, ?_⟩
  rw [h.place, List.getElem?_append_right (by omega), Nat.add_sub_cancel_left,
    List.getElem?_cons_succ, List.getElem?_append_left inside, List.getElem?_eq_getElem inside]

theorem getElem?_last (h : IsStatement lines front head tail behind) :
    lines[front.length + tail.length]? = (head :: tail).getLast? := by
  rw [h.place, List.getElem?_append_right (by omega), Nat.add_sub_cancel_left, ← List.cons_append,
    List.getElem?_append_left (by simp), List.getLast?_eq_getElem?, List.length_cons,
    Nat.add_sub_cancel]

end IsStatement

namespace Imports

variable {imports : Imports}

/-! ## The order of the block -/

/-- One directive is written before another: its group comes before, or both are in one group
    and it comes before by code points. -/
def Precedes (imports : Imports) (a b : Text) : Prop :=
  (ImportGroup.of imports.packageName a).rank < (ImportGroup.of imports.packageName b).rank ∨
    ImportGroup.of imports.packageName a = ImportGroup.of imports.packageName b ∧ a < b

theorem Precedes.asymm {a b : Text} (before : imports.Precedes a b) : ¬ imports.Precedes b a := by
  rintro (rank | ⟨same, less⟩)
  · rcases before with other | ⟨alike, -⟩
    · exact absurd other rank.not_gt
    · rw [alike] at rank
      exact absurd rank (Nat.lt_irrefl _)
  · rcases before with rank | ⟨-, other⟩
    · rw [same] at rank
      exact absurd rank (Nat.lt_irrefl _)
    · exact absurd other less.not_gt

theorem pairwise_precedes (imports : Imports) :
    imports.groups.flatten.Pairwise imports.Precedes := by
  have grouped := imports.isGrouped_groups
  refine List.pairwise_flatten.mpr ⟨fun g member => ?_, ?_⟩
  · refine (grouped.sorted g member).imp_of_mem fun first second less => ?_
    exact .inr ⟨grouped.alike g member _ first _ second, less⟩
  · exact grouped.ordered.imp fun ranks a first b second => .inl (ranks a first b second)

/-- What the block ends with: the given directive, unless another one is written behind it. -/
theorem formatted_last {head : Text} (entries : ∀ value ∈ imports.values, IsEntry value)
    (member : head ∈ imports.values) :
    ∃ front last, imports.formatted.lines = front ++ [last] ∧ last ∈ imports.values ∧
      ((∀ value ∈ imports.values, ¬ imports.Precedes head value) → last = head) ∧
      ∀ value ∈ imports.values, imports.Precedes head value → imports.Precedes head last := by
  have grouped := imports.isGrouped_groups
  obtain ⟨front, last, split, behind⟩ :=
    last_of_pairwise imports.pairwise_precedes ((grouped.mem_iff head).mpr member)
  have listed : last ∈ imports.values := (grouped.mem_iff last).mp (by simp [split])
  have ending : (spaced imports.groups).getLast? = some last := by
    rw [getLast?_spaced grouped.nonempty, split, List.getLast?_concat]
  obtain ⟨above, lines⟩ := List.getLast?_eq_some_iff.mp ending
  refine ⟨above, last, ?_, listed, ?_, ?_⟩
  · rw [lines_formatted entries (List.ne_nil_of_mem member), lines]
  · intro none
    exact behind.resolve_right (none last listed)
  · rintro value inside before
    refine behind.resolve_left ?_
    rintro rfl
    -- a directive behind the last one would stand in the block, and so before it
    have ordered := imports.pairwise_precedes
    rw [split] at ordered
    have shown : value ∈ front ++ [last] := split ▸ (grouped.mem_iff value).mpr inside
    rcases List.mem_append.mp shown with higher | same
    · exact before.asymm ((List.pairwise_append.mp ordered).2.2 value higher last (by simp))
    · rw [List.mem_singleton.mp same] at before
      exact before.asymm before

/-! ## The last line of the block -/

/-- The old block ends with a directive of the buffer. -/
def EndsIn (buffer : List Text) (imports : Imports) : Prop :=
  ∀ first last, imports.block = some (first, last) → ∃ line, buffer[last]? = some line ∧
    isDirective line

theorem readFrom_endsIn {buffer lines : List Text} {seen : Bool} {lineNo : Nat}
    (place : buffer.drop lineNo = lines) (known : imports.EndsIn buffer) :
    (imports.readFrom seen lineNo lines).EndsIn buffer := by
  induction lines generalizing imports seen lineNo with
  | nil => simpa [readFrom] using known
  | cons line rest ih =>
      have here : buffer[lineNo]? = some line := by
        rw [← List.head?_drop, place, List.head?_cons]
      have below : buffer.drop (lineNo + 1) = rest := by
        rw [← List.drop_drop, place, List.drop_one, List.tail_cons]
      rw [readFrom]
      dsimp only
      split
      · rename_i directive
        refine ih below fun first last block => ?_
        simp only [readDirective, Option.some.injEq, Prod.mk.injEq] at block
        exact ⟨line, block.2 ▸ here, directive⟩
      · split
        · exact ih below known
        · split
          · exact ih below known
          · exact known

namespace Asked

variable {text : Text} {packageName : Option Text}

theorem requireAll {needs : List LibraryNeed} (known : needs ⊆ memberLibraries)
    (before : Asked text packageName imports) :
    Asked text packageName (imports.requireAll needs) := by
  induction needs generalizing imports with
  | nil => exact before
  | cons need rest ih =>
      obtain ⟨here, others⟩ := List.cons_subset.mp known
      exact ih others (.require before fun _ => isEntry_library here)

theorem endsIn (asked : Asked text packageName imports) : imports.EndsIn text.lines := by
  obtain ⟨added, same, -⟩ := asked.values
  have start : EndsIn text.lines { source := text, packageName } := by
    intro first last none
    cases none
  rw [same]
  exact readFrom_endsIn rfl start

theorem above (asked : Asked text packageName imports) : imports.Above text.lines.length := by
  obtain ⟨added, same, -⟩ := asked.values
  have inside := ofText_inside text packageName
  rw [same]
  exact ⟨inside.insertLine, inside.block⟩

theorem line_of_block (asked : Asked text packageName imports) {first last i : Nat}
    (block : imports.block = some (first, last)) (low : first ≤ i) (high : i ≤ last) :
    ∃ line, text.lines[i]? = some line ∧
      (line.trim = [] ∨ isDirective line ∧ line.trim ∈ imports.values) := by
  obtain ⟨added, -, entries⟩ := asked.values
  obtain ⟨line, here, blank | listed⟩ := asked.keeps_lines block low high
  · exact ⟨line, here, .inl (Text.trim_of_isBlankText blank)⟩
  · refine ⟨line, here, .inr ⟨?_, listed⟩⟩
    have directive := (entries _ listed).directive
    rwa [isDirective, Text.trim_trim] at directive

end Asked

/-! ## A statement and the block -/

/-- Whether the edit of the block takes a statement apart that starts on a line: the statement
    goes on below the last line of the old block and another directive is written behind its
    first line, or the place for a new block lies inside it. -/
def Severs (imports : Imports) (line : Nat) (head : Text) (tail : List Text) : Prop :=
  match imports.block with
  | some (_, last) => last = line ∧ tail ≠ [] ∧ ∃ value ∈ imports.values,
    imports.Precedes head.trim value
  | none => line < imports.insertLine ∧ imports.insertLine ≤ line + tail.length

inductive Severed (imports : Imports) (head : Text) (tail out : List Text) : Prop where
  /-- Above the lines it goes on in stands another directive, one that is written behind its
      first line. -/
  | sorted {top below : List Text} {other : Text} (listed : other ∈ imports.values)
      (behind : imports.Precedes head.trim other) (stands : out = top ++ other :: (tail ++ below))
  /-- Between two of its lines stands a new block. -/
  | split {top first rest below : List Text} (parts : tail = first ++ rest) (goesOn : rest ≠ [])
      (stands : out = top ++ (head :: first ++ (imports.formatted.lines ++ [] :: (rest ++ below))))

section Statement

variable {text : Text} {packageName : Option Text} {e : LineEdit} {front : List Text} {head : Text}
  {tail behind : List Text} {first last : Nat}

/-- A statement lies above the block, or below it but for its first line, or it is one line of
    it. -/
theorem Asked.beside (asked : Asked text packageName imports)
    (block : imports.block = some (first, last))
    (statement : IsStatement text.lines front head tail behind) :
    front.length + tail.length < first ∨ last ≤ front.length ∨
      tail = [] ∧ first ≤ front.length ∧ front.length < last := by
  by_cases above : front.length + tail.length < first
  · exact .inl above
  by_cases below : last ≤ front.length
  · exact .inr (.inl below)
  refine .inr (.inr ?_)
  by_cases single : tail = []
  · rw [single, List.length_nil] at above
    exact ⟨single, by omega, by omega⟩
  -- the block ends with a directive, and a statement goes on without one
  exfalso
  rcases Nat.lt_or_ge last (front.length + tail.length) with inside | inside
  · obtain ⟨line, here, directive⟩ := asked.endsIn first last block
    obtain ⟨other, member, there⟩ := statement.getElem?_tail (i := last) (by omega) (by omega)
    rw [Option.some.inj (here.symm.trans there), statement.continued other member] at directive
    cases directive
  · have size := List.length_pos_iff.mpr single
    obtain ⟨other, member, there⟩ :=
      statement.getElem?_tail (i := front.length + tail.length) (by omega) (by omega)
    obtain ⟨line, here, blank | ⟨directive, -⟩⟩ :=
      asked.line_of_block block (i := front.length + tail.length) (by omega) inside
    · exact statement.ends line (statement.getElem?_last ▸ here) blank
    · rw [Option.some.inj (here.symm.trans there), statement.continued other member] at directive
      cases directive

theorem edit?_of_block (edit : imports.edit? = some e)
    (block : imports.block = some (first, last)) :
    e = { start := first, stop := (last : Int) + 1, text := imports.formatted } := by
  rw [edit?, block] at edit
  split at edit
  · exact (Option.some.inj edit).symm
  · cases edit

theorem edit?_of_none (edit : imports.edit? = some e) (none : imports.block = none) :
    e =
      { start := imports.insertLine, stop := imports.insertLine
        text := imports.formatted ++ "\n" } := by
  rw [edit?, none] at edit
  split at edit
  · exact (Option.some.inj edit).symm
  · cases edit

theorem Asked.head_listed (asked : Asked text packageName imports)
    (block : imports.block = some (first, last))
    (statement : IsStatement text.lines front head tail behind) (low : first ≤ front.length)
    (high : front.length ≤ last) (solid : head.trim ≠ []) : head.trim ∈ imports.values := by
  obtain ⟨line, here, known⟩ := asked.line_of_block block low high
  rw [Option.some.inj (here.symm.trans statement.getElem?_head)] at known
  exact (known.resolve_left solid).2

theorem Asked.mem_applyTo (asked : Asked text packageName imports) (edit : imports.edit? = some e)
    (block : imports.block = some (first, last)) {value : Text} (member : value ∈ imports.values)
    (lines : List Text) :
    value ∈ e.applyTo lines := by
  obtain ⟨added, -, entries⟩ := asked.values
  have listed : value ∈ imports.groups.flatten :=
    (imports.isGrouped_groups.mem_iff value).mpr member
  have written : value ∈ (spaced imports.groups).filter fun line => !line.isBlankText := by
    rw [filter_spaced (by decide)]
    exact List.mem_filter.mpr ⟨listed, by simp [(entries value member).isBlankText]⟩
  have shown : value ∈ imports.formatted.lines := by
    rw [lines_formatted entries (List.ne_nil_of_mem member)]
    exact (List.mem_filter.mp written).1
  rw [edit?_of_block edit block, LineEdit.applyTo]
  exact List.mem_append_left _ (List.mem_append_right _ shown)

/-- What comes of a statement whose first line ends the block: below the rewritten block stand
    the lines it goes on in. -/
theorem Asked.applyTo_last (asked : Asked text packageName imports)
    (edit : imports.edit? = some e) (block : imports.block = some (first, front.length))
    (statement : IsStatement text.lines front head tail behind) (below : List Text) :
    ∃ top other, e.applyTo (front ++ head :: (tail ++ below)) = top ++ other :: (tail ++ below) ∧
      other ∈ imports.values ∧
        ((∀ value ∈ imports.values, ¬ imports.Precedes head.trim value) → other = head.trim) ∧
      ∀ value ∈ imports.values, imports.Precedes head.trim value →
        imports.Precedes head.trim other := by
  have order := (asked.above.block first front.length block).1
  have listed : head.trim ∈ imports.values := by
    refine asked.head_listed block statement order (Nat.le_refl _) fun blank => ?_
    obtain ⟨line, here, directive⟩ := asked.endsIn first front.length block
    rw [Option.some.inj (here.symm.trans statement.getElem?_head),
      isDirective_of_blank blank] at directive
    cases directive
  obtain ⟨added, -, entries⟩ := asked.values
  obtain ⟨above, other, lines, member, same, behind⟩ := formatted_last entries listed
  refine ⟨front.take first ++ above, other, ?_, member, same, behind⟩
  have split : front ++ head :: (tail ++ below) =
      front.take first ++ ((front.drop first ++ [head]) ++ (tail ++ below)) := by
    rw [List.append_assoc (front.drop first), ← List.append_assoc (front.take first),
      List.take_append_drop, List.singleton_append]
  have size : (front.take first).length = first := by
    rw [List.length_take]
    omega
  rw [edit?_of_block edit block, split, LineEdit.applyTo_part (by rw [size])]
  · rw [lines]
    simp only [List.append_assoc, List.singleton_append]
  · rw [size, List.length_append, List.length_drop, List.length_singleton]
    dsimp only
    omega

/-- A new block inside a statement stands between two of its lines. -/
theorem severed_of_insert (edit : imports.edit? = some e) (none : imports.block = none)
    (low : front.length < imports.insertLine)
    (high : imports.insertLine ≤ front.length + tail.length) (below : List Text) :
    imports.Severed head tail (e.applyTo (front ++ head :: (tail ++ below))) := by
  obtain ⟨count, place⟩ : ∃ count, imports.insertLine = front.length + (count + 1) :=
    ⟨imports.insertLine - front.length - 1, by omega⟩
  have size : (front ++ head :: tail.take count).length = front.length + (count + 1) := by
    rw [List.length_append, List.length_cons, List.length_take]
    omega
  have split : front ++ head :: (tail ++ below) =
      (front ++ head :: tail.take count) ++ ([] ++ (tail.drop count ++ below)) := by
    rw [List.nil_append, List.append_assoc, List.cons_append, ← List.append_assoc (tail.take count),
      List.take_append_drop]
  have stands : e.applyTo (front ++ head :: (tail ++ below)) =
      front ++ (head :: tail.take count ++
        (imports.formatted.lines ++ [] :: (tail.drop count ++ below))) := by
    rw [edit?_of_none edit none, split,
      LineEdit.applyTo_part (by rw [size, place]) (by rw [size, place]; rfl),
      show "\n".toList = '\n' :: [] from rfl, Text.lines_append_feed]
    simp
  refine .split (List.take_append_drop count tail).symm (List.ne_nil_of_length_pos ?_) stands
  rw [List.length_drop]
  omega

end Statement

end Imports

end Dart

end ValueClass
