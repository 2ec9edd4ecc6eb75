import Mathlib.Data.List.Basic
import Mathlib.Tactic.Common
import ValueClass.Text.Basic

/-! # Lines and texts

Cutting a text into lines and joining lines into a text undo each other. The
second half of that needs lines without line feeds; a list of whole texts is
joined to a text whose lines are theirs, one text after the other. Every line but
the last is closed by a line feed, so the text is its lines with these line feeds.
-/

namespace ValueClass.Text

theorem splitWhere_ne_nil (cuts : Char → Bool) (t : Text) : splitWhere cuts t ≠ [] := by
  cases t with
  | nil => simp [splitWhere]
  | cons c rest =>
      simp only [splitWhere]
      split
      · simp
      · cases splitWhere cuts rest <;> simp [consFirst]

theorem lines_ne_nil (t : Text) : t.lines ≠ [] :=
  splitWhere_ne_nil _ t

@[simp] theorem lines_nil : lines [] = [[]] := rfl

theorem lines_cons_feed (rest : Text) : lines ('\n' :: rest) = [] :: lines rest := by
  simp [lines, splitWhere]

theorem lines_cons {c : Char} (hc : c ≠ '\n') (rest : Text) :
    lines (c :: rest) = consFirst c (lines rest) := by
  simp [lines, splitWhere, hc]

/-- No line holds the character that ends lines. -/
theorem notMem_of_mem_lines {t line : Text} (h : line ∈ t.lines) : '\n' ∉ line := by
  induction t generalizing line with
  | nil =>
      simp only [lines_nil, List.mem_singleton] at h
      simp [h]
  | cons c rest ih =>
      by_cases hc : c = '\n'
      · subst hc
        rw [lines_cons_feed] at h
        rcases List.mem_cons.mp h with rfl | h
        · simp
        · exact ih h
      · rw [lines_cons hc] at h
        cases split : lines rest with
        | nil => exact absurd split (lines_ne_nil rest)
        | cons first others =>
            rw [split] at h ih
            rcases List.mem_cons.mp h with rfl | h
            · have := ih (List.mem_cons_self)
              simp [this, Ne.symm hc]
            · exact ih (List.mem_cons_of_mem _ h)

theorem consFirst_append (c : Char) {pieces : List Text} (h : pieces ≠ []) (more : List Text) :
    consFirst c (pieces ++ more) = consFirst c pieces ++ more := by
  cases pieces with
  | nil => exact absurd rfl h
  | cons piece pieces => rfl

/-- A line feed between two texts keeps their lines apart. -/
@[simp] theorem lines_append_feed (a b : Text) : lines (a ++ '\n' :: b) = lines a ++ lines b := by
  induction a with
  | nil => exact lines_cons_feed b
  | cons c rest ih =>
      by_cases hc : c = '\n'
      · subst hc
        rw [List.cons_append, lines_cons_feed, lines_cons_feed, ih, List.cons_append]
      · rw [List.cons_append, lines_cons hc, lines_cons hc, ih,
          consFirst_append c (lines_ne_nil rest)]

theorem lines_append_flatMap {α : Type} (a : Text) (f : α → Text) (items : List α) :
    lines (a ++ items.flatMap fun item => '\n' :: f item) = lines a ++ items.flatMap fun item =>
      lines (f item) := by
  induction items generalizing a with
  | nil => simp
  | cons item rest ih =>
      rw [List.flatMap_cons, List.cons_append, lines_append_feed, ih, List.flatMap_cons]

theorem exists_lines_concat {c : Char} (other : c ≠ '\n') (t : Text) :
    ∃ front line, lines (t ++ [c]) = front ++ [line ++ [c]] := by
  induction t with
  | nil =>
      refine ⟨[], [], ?_⟩
      rw [List.nil_append, lines_cons other]
      rfl
  | cons d rest ih =>
      obtain ⟨front, line, same⟩ := ih
      by_cases feed : d = '\n'
      · exact ⟨[] :: front, line, by rw [feed, List.cons_append, lines_cons_feed, same]; rfl⟩
      · rw [List.cons_append, lines_cons feed, same]
        cases front with
        | nil => exact ⟨[], d :: line, rfl⟩
        | cons first more => exact ⟨(d :: first) :: more, line, rfl⟩

theorem lines_of_notMem {t : Text} (h : '\n' ∉ t) : t.lines = [t] := by
  induction t with
  | nil => rfl
  | cons c rest ih =>
      simp only [List.mem_cons, not_or] at h
      rw [lines_cons (Ne.symm h.1), ih h.2]
      rfl

theorem unlines_cons_cons (piece next : Text) (rest : List Text) :
    unlines (piece :: next :: rest) = piece ++ '\n' :: unlines (next :: rest) := by
  simp [unlines, join]

theorem unlines_cons {piece : Text} {rest : List Text} (h : rest ≠ []) :
    unlines (piece :: rest) = piece ++ '\n' :: unlines rest := by
  cases rest with
  | nil => exact absurd rfl h
  | cons next others => exact unlines_cons_cons piece next others

theorem unlines_singleton (piece : Text) : unlines [piece] = piece := rfl

theorem unlines_append {a b : List Text} (ha : a ≠ []) (hb : b ≠ []) :
    unlines (a ++ b) = unlines a ++ '\n' :: unlines b := by
  induction a with
  | nil => exact absurd rfl ha
  | cons piece rest ih =>
      cases rest with
      | nil =>
          cases b with
          | nil => exact absurd rfl hb
          | cons next others => exact unlines_cons_cons piece next others
      | cons next others =>
          have step := ih (by simp)
          simp only [List.cons_append, unlines_cons_cons] at step ⊢
          rw [step]
          simp

theorem unlines_concat (ls : List Text) (last : Text) :
    unlines (ls ++ [last]) = (ls.flatMap fun line => line ++ ['\n']) ++ last := by
  induction ls with
  | nil => rfl
  | cons line rest ih =>
      rw [List.cons_append, unlines_cons (by simp), ih]
      simp

theorem lines_unlines_flatMap {pieces : List Text} (h : pieces ≠ []) :
    (unlines pieces).lines = pieces.flatMap lines := by
  induction pieces with
  | nil => exact absurd rfl h
  | cons piece rest ih =>
      cases rest with
      | nil => simp [unlines_singleton]
      | cons next others =>
          rw [unlines_cons_cons, lines_append_feed, ih (by simp)]
          rfl

theorem lines_infix_unlines {t : Text} {pieces : List Text} (member : t ∈ pieces) :
    lines t <:+: lines (unlines pieces) := by
  obtain ⟨before, after, rfl⟩ := List.append_of_mem member
  rw [lines_unlines_flatMap (by simp), List.flatMap_append, List.flatMap_cons, ← List.append_assoc]
  exact List.infix_append _ _ _

theorem flatMap_lines_of_notMem {ls : List Text} (h : ∀ line ∈ ls, '\n' ∉ line) :
    ls.flatMap lines = ls := by
  induction ls with
  | nil => rfl
  | cons line rest ih =>
      rw [List.flatMap_cons, lines_of_notMem (h line (by simp)),
        ih fun l member => h l (List.mem_cons_of_mem _ member)]
      rfl

theorem lines_unlines {ls : List Text} (hne : ls ≠ []) (h : ∀ line ∈ ls, '\n' ∉ line) :
    (unlines ls).lines = ls := by
  rw [lines_unlines_flatMap hne, flatMap_lines_of_notMem h]

/-- A text comes back from its lines. -/
@[simp] theorem unlines_lines (t : Text) : unlines t.lines = t := by
  induction t with
  | nil => rfl
  | cons c rest ih =>
      cases split : lines rest with
      | nil => exact absurd split (lines_ne_nil rest)
      | cons first others =>
          rw [split] at ih
          by_cases hc : c = '\n'
          · subst hc
            rw [lines_cons_feed, split, unlines_cons_cons, ih]
            rfl
          · rw [lines_cons hc, split]
            cases others with
            | nil => simpa [consFirst, unlines_singleton] using ih
            | cons next more =>
                simp only [consFirst, unlines_cons_cons] at ih ⊢
                rw [← ih]
                rfl

/-- The line feed that closes a line in front of others. -/
def closing (rest : List Text) : Text :=
  when (!rest.isEmpty) "\n"

/-- Lines as rows: a line feed closes each of them but the last one. -/
def ended : List Text → List Text
  | [] => []
  | line :: rest => (line ++ closing rest) :: ended rest

@[simp] theorem length_ended (ls : List Text) : (ended ls).length = ls.length := by
  induction ls with
  | nil => rfl
  | cons line rest ih => rw [ended, List.length_cons, List.length_cons, ih]

theorem ended_consFirst {ls : List Text} (some : ls ≠ []) (c : Char) :
    ended (consFirst c ls) = consFirst c (ended ls) := by
  cases ls with
  | nil => exact absurd rfl some
  | cons first rest => rfl

theorem ended_lines_feed (t : Text) : ended (lines ('\n' :: t)) = ['\n'] :: ended t.lines := by
  have some : closing t.lines = ['\n'] := by
    cases cut : t.lines with
    | nil => exact absurd cut (lines_ne_nil t)
    | cons line rest => rfl
  rw [lines_cons_feed, ended, some]
  rfl

theorem split_of_ended {ls above below : List Text} {row : Text}
    (same : ended ls = above ++ row :: below) :
    ∃ top line bottom, ls = top ++ line :: bottom ∧ top.length = above.length ∧
      bottom.length = below.length ∧
      row = line ++ closing bottom := by
  induction above generalizing ls with
  | nil =>
      cases ls with
      | nil => cases same
      | cons line rest =>
          rw [ended, List.nil_append, List.cons.injEq] at same
          exact ⟨[], line, rest, rfl, rfl, by rw [← same.2, length_ended], same.1.symm⟩
  | cons first above ih =>
      cases ls with
      | nil => cases same
      | cons line rest =>
          rw [ended, List.cons_append, List.cons.injEq] at same
          obtain ⟨top, found, bottom, place, higher, lower, read⟩ := ih same.2
          exact ⟨line :: top, found, bottom, by rw [place, List.cons_append], by simp [higher],
            lower, read⟩

theorem unlines_append_cons (top bottom : List Text) (line : Text) :
    unlines (top ++ line :: bottom) =
      (top.flatMap fun upper => upper ++ ['\n']) ++ (line ++ closing bottom) ++ unlines bottom := by
  induction top with
  | nil =>
      cases bottom with
      | nil => simp [closing, when, unlines, join]
      | cons next rest =>
          rw [List.nil_append, unlines_cons_cons]
          simp [closing, when]
  | cons first top ih =>
      rw [List.cons_append, unlines_cons (by simp), ih]
      simp

end ValueClass.Text
