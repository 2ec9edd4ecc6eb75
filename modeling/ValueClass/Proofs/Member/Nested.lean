import ValueClass.Proofs.Dart.ImportText
import ValueClass.Proofs.Member.CtorText
import ValueClass.Proofs.Member.ParamText
import ValueClass.Proofs.Text.Reindented

/-! # Properly nested brackets

The splitter of a parameter list counts brackets, and the search for its closing
parenthesis counts some of them. Neither can be misled by a parameter whose brackets are
properly nested: it is passed as one item, wherever it stands.
-/

namespace ValueClass

def closerOf? (c : Char) : Option Char :=
  if c = '(' then some ')'
  else if c = '[' then some ']'
  else if c = '\x7b' then some '\x7d'
  else if c = '<' then some '>'
  else none

namespace Text

/-- Whether the brackets of a text close in their order, behind a text that left some
    open: `due` are the brackets that close those, the innermost first. -/
def nestedFrom : List Char → Text → Bool
  | due, [] => due.isEmpty
  | due, c :: rest =>
    if bracketStep c = 0 then nestedFrom due rest
    else
      match closerOf? c with
      | some closer => nestedFrom (closer :: due) rest
      | none => due.head? == some c && nestedFrom due.tail rest

/-- Whether the brackets of a text are properly nested. -/
def isNested (t : Text) : Bool :=
  nestedFrom [] t

theorem bracketStep_of_closerOf? {c closer : Char} (h : closerOf? c = some closer) :
    bracketStep c = 1 := by
  unfold closerOf? at h
  split_ifs at h with paren square brace angle
  · rw [paren]; rfl
  · rw [square]; rfl
  · rw [brace]; rfl
  · rw [angle]; rfl

theorem bracketStep_of_closer {c : Char} (bracket : bracketStep c ≠ 0)
    (other : closerOf? c = none) :
    bracketStep c = -1 := by
  have closed : bracketStep c = 1 ∨ bracketStep c = -1 ∨ bracketStep c = 0 := by
    unfold bracketStep
    split_ifs <;> simp
  rcases closed with opening | closing | plain
  · unfold closerOf? at other
    unfold bracketStep at opening
    split_ifs at other opening <;> simp_all
  · exact closing
  · exact absurd plain bracket

theorem nestedFrom_append {front : Text} (plain : ∀ c ∈ front, bracketStep c = 0)
    (due : List Char) (t : Text) :
    nestedFrom due (front ++ t) = nestedFrom due t := by
  induction front with
  | nil => rfl
  | cons c rest ih =>
      rw [List.cons_append, nestedFrom, if_pos (plain c (by simp))]
      exact ih fun d member => plain d (List.mem_cons_of_mem _ member)

theorem bracketStep_of_isBlankText {blanks : Text} (blank : blanks.isBlankText) :
    ∀ c ∈ blanks, bracketStep c = 0 :=
  fun c member => bracketStep_of_isBlank (List.all_eq_true.mp blank c member)

theorem Reindents.nestedFrom {t t' : Text} (h : Reindents t t') (due : List Char) :
    Text.nestedFrom due t' = Text.nestedFrom due t := by
  induction h generalizing due with
  | nil => rfl
  | @cons c blanks t t' blank _ _ ih =>
      have passed : ∀ due, Text.nestedFrom due (blanks ++ t') = Text.nestedFrom due t := fun due =>
        (nestedFrom_append (bracketStep_of_isBlankText blank) due t').trans (ih due)
      rw [Text.nestedFrom, Text.nestedFrom]
      simp only [passed]

theorem length_of_head? {c : Char} {due : List Char} (head : due.head? = some c) :
    due.length = due.tail.length + 1 := by
  cases due with
  | nil => cases head
  | cons => rfl

/-- While brackets are open, a nested text is passed. -/
theorem passes_of_nestedFrom {due : List Char} {t : Text} (nested : nestedFrom due t) {base : Int}
    (open_ : 1 ≤ base) :
    Passes bracketStep (· == ',') (base + due.length) t base := by
  fun_induction nestedFrom due t with
  | case1 due =>
      rw [List.isEmpty_iff.mp nested, Passes]
      simp
  | case2 due c rest plain ih =>
      refine ⟨fun _ => by omega, ?_⟩
      rw [plain, Int.add_zero]
      exact ih nested
  | case3 due c rest bracket closer opening ih =>
      have step := bracketStep_of_closerOf? opening
      have deeper := ih nested
      refine ⟨fun _ => by omega, ?_⟩
      rw [List.length_cons, Int.natCast_succ, ← Int.add_assoc] at deeper
      rwa [step]
  | case4 due c rest bracket other ih =>
      rw [Bool.and_eq_true, beq_iff_eq] at nested
      have step := bracketStep_of_closer bracket other
      have shorter := length_of_head? nested.1
      have same : base + (due.length : Int) + bracketStep c = base + due.tail.length := by omega
      refine ⟨fun _ => by omega, ?_⟩
      rw [same]
      exact ih nested.2

/-- A nested text closes what is due, and nothing else. -/
theorem Passes.eq_of_nestedFrom {due : List Char} {t : Text} {cuts : Char → Bool}
    {depth behind : Int} (h : Passes bracketStep cuts depth t behind)
    (nested : Text.nestedFrom due t) : behind + due.length = depth := by
  fun_induction Text.nestedFrom due t generalizing depth with
  | case1 due =>
      rw [List.isEmpty_iff.mp nested]
      rw [Passes] at h
      simp [h]
  | case2 due c rest plain ih =>
      have := ih h.2 nested
      omega
  | case3 due c rest bracket closer opening ih =>
      have step := bracketStep_of_closerOf? opening
      have later := ih h.2 nested
      rw [List.length_cons] at later
      omega
  | case4 due c rest bracket other ih =>
      rw [Bool.and_eq_true, beq_iff_eq] at nested
      have step := bracketStep_of_closer bracket other
      have shorter := length_of_head? nested.1
      have later := ih h.2 nested.2
      omega

/-! ## Items -/

theorem Passes.unique {step : Char → Int} {cuts : Char → Bool} {depth x y : Int} {t : Text}
    (first : Passes step cuts depth t x) (second : Passes step cuts depth t y) : x = y := by
  induction t generalizing depth with
  | nil => exact first.symm.trans second
  | cons c rest ih => exact ih first.2 second.2

theorem passes_splitAtDepth {step : Char → Int} {cuts : Char → Bool} (depth : Int) (t : Text) :
    ∃ first rest, splitAtDepth step cuts depth t = first :: rest ∧
      (∃ behind, Passes step cuts depth first behind) ∧
      ∀ piece ∈ rest, ∃ behind, Passes step cuts 0 piece behind := by
  induction t generalizing depth with
  | nil => exact ⟨[], [], rfl, ⟨depth, rfl⟩, by simp⟩
  | cons c rest ih =>
      obtain ⟨first, others, split, here, later⟩ := ih (depth + step c)
      rw [splitAtDepth, split]
      by_cases cut : (cuts c && depth + step c == 0) = true
      · rw [if_pos cut]
        rw [Bool.and_eq_true, beq_iff_eq] at cut
        rw [cut.2] at here
        exact ⟨[], first :: others, rfl, ⟨depth, rfl⟩, by simpa using ⟨here, later⟩⟩
      · rw [if_neg cut]
        obtain ⟨behind, passed⟩ := here
        refine ⟨c :: first, others, rfl, ⟨behind, ?_, passed⟩, later⟩
        intro cuts zero
        exact cut (by simp [cuts, zero])

theorem passes_of_mem_splitAtDepth {step : Char → Int} {cuts : Char → Bool} {t piece : Text}
    (member : piece ∈ splitAtDepth step cuts 0 t) : ∃ behind, Passes step cuts 0 piece behind := by
  obtain ⟨first, rest, split, here, later⟩ := @passes_splitAtDepth step cuts 0 t
  rw [split] at member
  rcases List.mem_cons.mp member with rfl | member
  · exact here
  · exact later piece member

theorem isItem_of_mem_splitTopLevel {t item : Text} (member : item ∈ splitTopLevel ',' t)
    (nested : isNested item) :
    IsItem item := by
  obtain ⟨inside, filled⟩ := List.mem_filter.mp member
  obtain ⟨piece, cut, rfl⟩ := List.mem_map.mp inside
  obtain ⟨behind, passed⟩ := passes_of_mem_splitAtDepth cut
  obtain ⟨before, after, left, right, whole⟩ := trim_split piece
  rw [whole] at passed
  obtain ⟨between, front, -⟩ := passed.of_append
  obtain ⟨start, blanks, here⟩ := front.of_append
  rw [blanks.unique (passes_blanks left 0)] at here
  have level := here.eq_of_nestedFrom nested
  rw [List.length_nil] at level
  have level : between = 0 := by simpa using level
  rw [level] at here
  exact ⟨by simpa using filled, trim_trim piece, here⟩

end Text

namespace Dart.CtorParts

/-! ## The closing parenthesis -/

theorem brackets_of_plain {c : Char} (plain : bracketStep c = 0) :
    opens c = false ∧ closes c = false := by
  unfold bracketStep at plain
  unfold opens closes
  split at plain
  · cases plain
  · rename_i opening
    split at plain
    · cases plain
    · rename_i closing
      simp only [Bool.or_eq_true, not_or, Bool.not_eq_true] at opening closing
      simp [opening, closing]

theorem brackets_of_closerOf? {c closer : Char} (h : closerOf? c = some closer) :
    opens c = (closer != '>') ∧ closes c = false := by
  unfold closerOf? at h
  split_ifs at h with paren square brace angle <;> cases h
  · rw [paren]; decide
  · rw [square]; decide
  · rw [brace]; decide
  · rw [angle]; decide

theorem brackets_of_closer {c : Char} (bracket : bracketStep c ≠ 0) (other : closerOf? c = none) :
    opens c = false ∧ closes c = (c != '>') := by
  have step := Text.bracketStep_of_closer bracket other
  have closed : c = '>' ∨ c = ')' ∨ c = ']' ∨ c = '\x7d' := by
    unfold bracketStep at step
    split at step
    · cases step
    · split at step
      · rename_i closing
        simpa [or_assoc] using closing
      · cases step
  rcases closed with rfl | rfl | rfl | rfl <;> decide

/-- No bracket of a nested text closes the list that it stands in. -/
theorem balanced_of_nestedFrom {due : List Char} {t : Text} (nested : Text.nestedFrom due t)
    {base : Nat} (open_ : 1 ≤ base) :
    Balanced (base + due.countP (· != '>')) t base := by
  fun_induction Text.nestedFrom due t with
  | case1 due =>
      rw [List.isEmpty_iff.mp nested, Balanced]
      rfl
  | case2 due c rest plain ih =>
      obtain ⟨noOpen, noClose⟩ := brackets_of_plain plain
      rw [Balanced, noOpen, noClose]
      exact ih nested
  | case3 due c rest bracket closer opening ih =>
      obtain ⟨opened, noClose⟩ := brackets_of_closerOf? opening
      have deeper := ih nested
      rw [List.countP_cons] at deeper
      rw [Balanced, opened, noClose]
      by_cases angle : closer = '>'
      · simpa [angle] using deeper
      · simpa [angle, Nat.add_assoc] using deeper
  | case4 due c rest bracket other ih =>
      rw [Bool.and_eq_true, beq_iff_eq] at nested
      obtain ⟨noOpen, closed⟩ := brackets_of_closer bracket other
      have shallower := ih nested.2
      obtain ⟨tail, rfl⟩ := List.head?_eq_some_iff.mp nested.1
      rw [List.tail_cons] at shallower
      rw [Balanced, noOpen, closed, List.countP_cons]
      by_cases angle : c = '>'
      · simpa [angle] using shallower
      · simp only [bne_iff_ne, ne_eq, angle, not_false_eq_true, Bool.false_eq_true, ↓reduceIte]
        exact ⟨by omega, shallower⟩

end Dart.CtorParts

end ValueClass
