import Mathlib.Data.List.Basic
import Mathlib.Tactic.Common
import ValueClass.Edit.Basic
import ValueClass.Proofs.Text.Lines

/-! # Simultaneous splicing

Edits are applied one after the other, each to what the one before left. Where
they are disjoint and come from the bottom up, this is the same as taking every
line of the old buffer once and putting each edit's text where its range was:
no edit sees the result of another.
-/

namespace ValueClass.LineEdit

/-- Whether a line lies in the range of an edit. -/
def covers (e : LineEdit) (index : Nat) : Bool :=
  e.start ≤ index && (index : Int) < e.stop

/-- The lines that come in front of an old line: those of insertions there, then
    those that take the place of a range that starts there. -/
def textsAt (edits : List LineEdit) (index : Nat) : List Text :=
  let starting := edits.filter fun e => e.start == (index : Int)
  (starting.filter (·.isInsertion)).flatMap (·.text.lines) ++
    (starting.filter fun e => !e.isInsertion).flatMap (·.text.lines)

/-- Old lines from an index on, with all edits in place at once. -/
def spliceFrom (edits : List LineEdit) : Nat → List Text → List Text
  | index, [] => textsAt edits index
  | index, line :: rest =>
    textsAt edits index ++ (if edits.any (·.covers index) then [] else [line]) ++
      spliceFrom edits (index + 1) rest

def range (e : LineEdit) (lines : List Text) : List Text :=
  (lines.drop e.start.toNat).take (e.stop.toNat - e.start.toNat)

def splice (edits : List LineEdit) (text : Text) : Text :=
  Text.unlines (spliceFrom edits 0 text.lines)

/-- Edits of a buffer with `count` lines that come from the bottom up and do not
    meet. An insertion may stand where a range starts, and then comes after it. -/
structure BottomUp (count : Nat) (edits : List LineEdit) : Prop where
  inRange : ∀ e ∈ edits, 0 ≤ e.start ∧ e.start ≤ e.stop ∧ e.stop ≤ count
  disjoint : edits.Pairwise fun lower upper => upper.stop ≤ lower.start
  descending : edits.Pairwise fun lower upper => upper.isAbove lower

namespace BottomUp

theorem tail {count : Nat} {e : LineEdit} {es : List LineEdit} (plan : BottomUp count (e :: es)) :
    BottomUp e.start.toNat es := by
  have above := (List.pairwise_cons.mp plan.disjoint).1
  have start := (plan.inRange e (by simp)).1
  refine ⟨?_, (List.pairwise_cons.mp plan.disjoint).2, (List.pairwise_cons.mp plan.descending).2⟩
  intro x member
  have range := plan.inRange x (List.mem_cons_of_mem _ member)
  have := above x member
  omega

theorem widen {count more : Nat} {edits : List LineEdit} (plan : BottomUp count edits)
    (h : count ≤ more) : BottomUp more edits := by
  refine ⟨?_, plan.disjoint, plan.descending⟩
  intro e member
  have range := plan.inRange e member
  omega

end BottomUp

theorem isAbove_iff {a b : LineEdit} :
    a.isAbove b ↔ a.start < b.start ∨ a.start = b.start ∧ a.stop < b.stop := by
  simp [isAbove]

theorem insertOrdered_eq_append {e : LineEdit} {edits : List LineEdit}
    (h : ∀ x ∈ edits, e.isAbove x) : insertOrdered e edits = edits ++ [e] := by
  induction edits with
  | nil => rfl
  | cons x rest ih =>
      have below : x.isAbove e = false := by
        have := isAbove_iff.mp (h x (by simp))
        rw [Bool.eq_false_iff, ne_eq, isAbove_iff]
        omega
      simp only [insertOrdered, below, Bool.false_eq_true, ↓reduceIte, List.cons_append]
      rw [ih fun y member => h y (List.mem_cons_of_mem _ member)]

theorem bottomUp_eq_self {edits : List LineEdit}
    (descending : edits.Pairwise fun lower upper => upper.isAbove lower) :
    bottomUp edits = edits := by
  suffices grown : ∀ ordered, (ordered ++ edits).Pairwise (fun lower upper => upper.isAbove lower) →
      edits.foldl (fun ordered e => insertOrdered e ordered) ordered = ordered ++ edits by
    simpa [bottomUp] using grown [] (by simpa using descending)
  clear descending
  induction edits with
  | nil => simp
  | cons e rest ih =>
      intro ordered sorted
      have above : ∀ x ∈ ordered, e.isAbove x := fun x member =>
        (List.pairwise_append.mp sorted).2.2 x member e (by simp)
      rw [List.foldl_cons, insertOrdered_eq_append above, ih _ (by simpa using sorted)]
      simp

section Apply

variable {e : LineEdit} {lines more : List Text}

theorem take_range_drop (lines : List Text) (order : e.start ≤ e.stop) :
    lines.take e.start.toNat ++ (e.range lines ++ lines.drop e.stop.toNat) = lines := by
  have := List.take_append_drop (e.stop.toNat - e.start.toNat) (lines.drop e.start.toNat)
  rw [List.drop_drop, show e.start.toNat + (e.stop.toNat - e.start.toNat) = e.stop.toNat by omega]
    at this
  rw [range, this, List.take_append_drop]

theorem length_range (stop : e.stop ≤ lines.length) :
    (e.range lines).length = e.stop.toNat - e.start.toNat := by
  simp only [range, List.length_take, List.length_drop]
  omega

theorem range_take {count : Nat} (stop : e.stop ≤ count) :
    e.range (lines.take count) = e.range lines := by
  rw [range, range, List.drop_take, List.take_take, Nat.min_eq_left (by omega)]

theorem applyTo_eq (start : 0 ≤ e.start) (order : e.start ≤ e.stop)
    (stop : e.stop ≤ lines.length) :
    e.applyTo lines = lines.take e.start.toNat ++ e.text.lines ++ lines.drop e.stop.toNat := by
  have first : clampIndex lines.length e.start = e.start.toNat := by
    simp only [clampIndex]
    split <;> omega
  have last : clampIndex lines.length e.stop = e.stop.toNat := by
    simp only [clampIndex]
    split <;> omega
  have later : max e.start.toNat e.stop.toNat = e.stop.toNat := by omega
  simp [applyTo, first, last, later]

theorem applyTo_part {above part below : List Text} (start : e.start = above.length)
    (stop : e.stop = above.length + part.length) :
    e.applyTo (above ++ (part ++ below)) = above ++ (e.text.lines ++ below) := by
  have size : e.stop.toNat = (above ++ part).length := by
    rw [List.length_append]
    omega
  rw [applyTo_eq (by omega) (by omega), show e.start.toNat = above.length by omega, size,
    List.take_left, ← List.append_assoc above part, List.drop_left, List.append_assoc]
  simp only [List.length_append]
  omega

theorem applyTo_append (start : 0 ≤ e.start) (order : e.start ≤ e.stop)
    (stop : e.stop ≤ lines.length) : e.applyTo (lines ++ more) = e.applyTo lines ++ more := by
  rw [applyTo_eq start order stop, applyTo_eq start order (by simp; omega),
    List.take_append_of_le_length (by omega), List.drop_append_of_le_length (by omega)]
  simp

theorem foldl_applyTo_append {edits : List LineEdit} (plan : BottomUp lines.length edits) :
    edits.foldl (fun ls e => e.applyTo ls) (lines ++ more) =
      edits.foldl (fun ls e => e.applyTo ls) lines ++ more := by
  induction edits generalizing lines with
  | nil => rfl
  | cons e rest ih =>
      obtain ⟨start, order, stop⟩ := plan.inRange e (by simp)
      rw [List.foldl_cons, List.foldl_cons, applyTo_append start order stop]
      apply ih
      apply plan.tail.widen
      rw [applyTo_eq start order stop]
      simp only [List.length_append, List.length_take, List.length_drop]
      omega

theorem foldl_applyTo_cons {edits : List LineEdit} (plan : BottomUp lines.length (e :: edits)) :
    (e :: edits).foldl (fun ls e => e.applyTo ls) lines =
      edits.foldl (fun ls e => e.applyTo ls) (lines.take e.start.toNat) ++ e.text.lines ++
        lines.drop e.stop.toNat := by
  obtain ⟨start, order, stop⟩ := plan.inRange e (by simp)
  rw [List.foldl_cons, applyTo_eq start order stop, List.append_assoc, foldl_applyTo_append]
  · simp
  · apply plan.tail.widen
    simp only [List.length_take]
    omega

/-- The lines of an edited buffer are the edited lines. -/
theorem lines_applyAll (edits : List LineEdit) (text : Text) :
    (applyAll edits text).lines =
      (bottomUp edits).foldl (fun ls e => e.applyTo ls) text.lines := by
  -- what holds of the lines of a text is kept by every edit
  suffices lines : ∀ (edits : List LineEdit) (ls : List Text),
      (ls ≠ [] ∧ ∀ line ∈ ls, '\n' ∉ line) →
      edits.foldl (fun ls e => e.applyTo ls) ls ≠ [] ∧
        ∀ line ∈ edits.foldl (fun ls e => e.applyTo ls) ls, '\n' ∉ line by
    obtain ⟨some, whole⟩ := lines (bottomUp edits) text.lines
      ⟨Text.lines_ne_nil text, fun _ member => Text.notMem_of_mem_lines member⟩
    rw [applyAll, Text.lines_unlines some whole]
  intro edits
  induction edits with
  | nil => exact fun ls whole => whole
  | cons e rest ih =>
      intro ls whole
      apply ih
      simp only [applyTo]
      refine ⟨by simp [Text.lines_ne_nil], ?_⟩
      intro line member
      simp only [List.mem_append] at member
      rcases member with (member | member) | member
      · exact whole.2 line (List.mem_of_mem_take member)
      · exact Text.notMem_of_mem_lines member
      · exact whole.2 line (List.mem_of_mem_drop member)

end Apply

section Splice

variable {e : LineEdit} {edits : List LineEdit} {index : Nat}

theorem textsAt_cons_of_ne (h : e.start ≠ index) :
    textsAt (e :: edits) index = textsAt edits index := by
  have other : (e.start == (index : Int)) = false := by simpa using h
  simp [textsAt, other]

theorem textsAt_eq_nil (h : ∀ x ∈ edits, x.start ≠ index) : textsAt edits index = [] := by
  have none_starts : (edits.filter fun x => x.start == (index : Int)) = [] := by
    rw [List.filter_eq_nil_iff]
    intro x member
    simpa using h x member
  simp [textsAt, none_starts]

theorem any_covers_eq_false (h : ∀ x ∈ edits, x.stop ≤ index) :
    edits.any (·.covers index) = false := by
  rw [List.any_eq_false]
  intro x member
  have := h x member
  simp only [covers, Bool.and_eq_true, decide_eq_true_eq]
  omega

/-- Where every edit has been passed, the old lines follow. -/
theorem spliceFrom_of_passed (lines : List Text)
    (h : ∀ x ∈ edits, x.start < index ∧ x.stop ≤ index) : spliceFrom edits index lines = lines := by
  induction lines generalizing index with
  | nil =>
      apply textsAt_eq_nil
      intro x member
      have := h x member
      omega
  | cons line rest ih =>
      have uncovered : edits.any (·.covers index) = false :=
        any_covers_eq_false fun x member => (h x member).2
      have nothing : textsAt edits index = [] := by
        apply textsAt_eq_nil
        intro x member
        have := h x member
        omega
      rw [spliceFrom, nothing, uncovered, ih]
      · simp
      · intro x member
        have := h x member
        omega

/-- Inside the range of an edit the old lines are left out. -/
theorem spliceFrom_of_covered (range lines : List Text)
    (stop : (index + range.length : Int) = e.stop) (start : e.start < index)
    (passed : ∀ x ∈ edits, x.start < index ∧ x.stop ≤ index) :
    spliceFrom (e :: edits) index (range ++ lines) = lines := by
  induction range generalizing index with
  | nil =>
      apply spliceFrom_of_passed
      intro x member
      rcases List.mem_cons.mp member with rfl | member
      · simp at stop
        omega
      · exact passed x member
  | cons line rest ih =>
      simp only [List.length_cons] at stop
      have covered : (e :: edits).any (·.covers index) = true := by
        simp [covers]
        omega
      have nothing : textsAt (e :: edits) index = [] := by
        apply textsAt_eq_nil
        intro x member
        rcases List.mem_cons.mp member with rfl | member
        · omega
        · have := passed x member
          omega
      rw [List.cons_append, spliceFrom, nothing, covered, ih]
      · simp
      · push_cast
        omega
      · omega
      · intro x member
        have := passed x member
        omega

/-- At the start of the lowest edit: insertions of the others come first. -/
theorem textsAt_cons_self (start : e.start = index)
    (above : ∀ x ∈ edits, x.start ≤ x.stop ∧ x.stop ≤ e.start ∧ x.isAbove e) :
    textsAt (e :: edits) index = textsAt edits index ++ e.text.lines := by
  have here : (e.start == (index : Int)) = true := by simpa using start
  by_cases insertion : e.isInsertion
  · -- nothing else starts here, for it would not lie strictly above an insertion
    have others : (edits.filter fun x => x.start == (index : Int)) = [] := by
      rw [List.filter_eq_nil_iff]
      intro x member
      obtain ⟨inside, disjoint, higher⟩ := above x member
      have := isAbove_iff.mp higher
      simp only [isInsertion, beq_iff_eq] at insertion
      simp only [beq_iff_eq]
      omega
    simp [textsAt, here, insertion, others]
  · have insertions : (edits.filter fun x => x.start == (index : Int)).filter
        (fun x => !x.isInsertion) = [] := by
      rw [List.filter_filter, List.filter_eq_nil_iff]
      intro x member
      obtain ⟨inside, disjoint, -⟩ := above x member
      simp only [isInsertion, Bool.and_eq_true, Bool.not_eq_true', beq_eq_false_iff_ne, beq_iff_eq]
      omega
    simp [textsAt, here, insertion, insertions]

/-- Where the lowest edit starts, its text is all that is left of its lines, and the lines
    below them stay. -/
theorem spliceFrom_cons_here (range below : List Text) (start : (index : Int) = e.start)
    (stop : e.start + (range.length : Int) = e.stop)
    (higher : ∀ x ∈ edits, x.start ≤ x.stop ∧ x.stop ≤ e.start ∧ x.isAbove e) :
    spliceFrom (e :: edits) index (range ++ below) = textsAt edits index ++
      e.text.lines ++ below := by
  have texts : textsAt (e :: edits) index = textsAt edits index ++ e.text.lines :=
    textsAt_cons_self (by omega) higher
  have passed : ∀ x ∈ edits, x.start < index + 1 ∧ x.stop ≤ index + 1 := by
    intro x member
    have := higher x member
    omega
  cases range with
  | nil =>
      simp only [List.length_nil] at stop
      have uncovered : (e :: edits).any (·.covers index) = false := by
        apply any_covers_eq_false
        intro x member
        rcases List.mem_cons.mp member with rfl | member
        · omega
        · have := higher x member
          omega
      cases below with
      | nil => simp [spliceFrom, texts]
      | cons line rest =>
          have rest_stays : spliceFrom (e :: edits) (index + 1) rest = rest := by
            apply spliceFrom_of_passed
            intro x member
            rcases List.mem_cons.mp member with rfl | member
            · push_cast
              omega
            · exact passed x member
          simp [spliceFrom, texts, uncovered, rest_stays]
  | cons line rest =>
      simp only [List.length_cons] at stop
      have covered : (e :: edits).any (·.covers index) = true := by
        simp [covers]
        omega
      have rest_goes : spliceFrom (e :: edits) (index + 1) (rest ++ below) = below := by
        apply spliceFrom_of_covered
        · push_cast
          omega
        · push_cast
          omega
        · exact passed
      simp only [List.cons_append, spliceFrom, texts, covered, ↓reduceIte, List.append_nil,
        rest_goes]

theorem spliceFrom_cons (above below : List Text) (range : List Text)
    (start : (index + above.length : Int) = e.start)
    (stop : e.start + (range.length : Int) = e.stop)
    (higher : ∀ x ∈ edits, x.start ≤ x.stop ∧ x.stop ≤ e.start ∧ x.isAbove e) :
    spliceFrom (e :: edits) index (above ++ (range ++ below)) =
      spliceFrom edits index above ++ e.text.lines ++ below := by
  induction above generalizing index with
  | nil =>
      have now : (index : Int) = e.start := by simpa using start
      rw [List.nil_append, spliceFrom_cons_here range below now stop higher, spliceFrom]
  | cons line rest ih =>
      simp only [List.length_cons] at start
      have uncovered : e.covers index = false := by
        simp [covers]
        omega
      rw [List.cons_append, spliceFrom, spliceFrom, textsAt_cons_of_ne (by omega), List.any_cons,
        uncovered, Bool.false_or, ih (by push_cast; omega)]
      simp

end Splice

/-- Applying edits from the bottom up is splicing them in at once. -/
theorem foldl_applyTo_eq_spliceFrom {edits : List LineEdit} {lines : List Text}
    (plan : BottomUp lines.length edits) :
    edits.foldl (fun ls e => e.applyTo ls) lines = spliceFrom edits 0 lines := by
  induction edits generalizing lines with
  | nil => exact (spliceFrom_of_passed lines (by simp)).symm
  | cons e rest ih =>
      obtain ⟨start, order, stop⟩ := plan.inRange e (by simp)
      have bound : e.start.toNat ≤ lines.length := by omega
      have inner : BottomUp (lines.take e.start.toNat).length rest := by
        rw [List.length_take, Nat.min_eq_left bound]
        exact plan.tail
      rw [foldl_applyTo_cons plan, ih inner]
      conv_rhs => rw [← take_range_drop lines order]
      rw [spliceFrom_cons]
      · rw [List.length_take, Nat.min_eq_left bound]
        omega
      · rw [length_range stop]
        omega
      · intro x member
        have range := plan.inRange x (List.mem_cons_of_mem _ member)
        exact ⟨range.2.1, (List.pairwise_cons.mp plan.disjoint).1 x member,
          (List.pairwise_cons.mp plan.descending).1 x member⟩

theorem applyAll_eq_splice {edits : List LineEdit} {text : Text}
    (plan : BottomUp text.lines.length edits) : applyAll edits text = splice edits text := by
  rw [applyAll, bottomUp_eq_self plan.descending, foldl_applyTo_eq_spliceFrom plan, splice]

end ValueClass.LineEdit
