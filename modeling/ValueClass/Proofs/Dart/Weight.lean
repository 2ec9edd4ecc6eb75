import ValueClass.Dart.Line
import ValueClass.Proofs.Text.Pieces

/-! # Weighing lines

How much a text opens: braces count as they stand and again with string literals
emptied. Both weights of a line are the sums of the weights of its parts, as long
as every literal ends in the part it starts in.
-/

namespace ValueClass.Dart.Line

/-- Whether a character can open or close a string literal. -/
def isQuote (c : Char) : Bool :=
  c == '\'' || c == '"'

section BlankStrings

theorem blankStrings_cons {c : Char} (h : isQuote c = false) (rest : Text) :
    blankStrings (c :: rest) = c :: blankStrings rest := by
  rw [isQuote] at h
  rw [blankStrings, h]
  rfl

theorem blankStrings_append {a : Text} (h : ∀ c ∈ a, isQuote c = false) (rest : Text) :
    blankStrings (a ++ rest) = a ++ blankStrings rest := by
  induction a with
  | nil => rfl
  | cons c tail ih =>
      rw [List.cons_append, blankStrings_cons (h c (by simp)),
        ih fun d member => h d (List.mem_cons_of_mem _ member)]
      rfl

@[simp] theorem blankStrings_nil : blankStrings [] = [] := by
  rw [blankStrings]

theorem blankStrings_eq_self {t : Text} (h : ∀ c ∈ t, isQuote c = false) : blankStrings t = t := by
  have := blankStrings_append h []
  rwa [List.append_nil, blankStrings_nil, List.append_nil] at this

theorem afterLiteral?_append {quote : Char} {s : Text} (plain : ∀ c ∈ s, c ≠ quote ∧ c ≠ '\\')
    (self : quote ≠ '\\') (rest : Text) : afterLiteral? quote (s ++ quote :: rest) = some rest := by
  induction s with
  | nil =>
      rw [List.nil_append, afterLiteral?]
      · simp
      · simp [self]
      · simp [self]
  | cons c tail ih =>
      obtain ⟨other, unescaped⟩ := plain c (by simp)
      rw [List.cons_append, afterLiteral?]
      · simp only [beq_iff_eq, other, ↓reduceIte]
        exact ih fun d member => plain d (List.mem_cons_of_mem _ member)
      · simp [unescaped]
      · simp [unescaped]

theorem blankStrings_literal {s : Text} (plain : ∀ c ∈ s, c ≠ '\'' ∧ c ≠ '\\') (rest : Text) :
    blankStrings ('\'' :: (s ++ '\'' :: rest)) = '\'' :: '\'' :: blankStrings rest := by
  have literal := afterLiteral?_append plain (by decide) rest
  rw [blankStrings]
  simp only [beq_self_eq_true, Bool.true_or, ↓reduceIte]
  split
  · rename_i after found
    rw [literal] at found
    cases found
    rfl
  · rename_i none
    rw [literal] at none
    simp at none

theorem afterLiteral?_suffix {quote : Char} {t rest : Text}
    (h : afterLiteral? quote t = some rest) :
    rest <:+ t := by
  fun_induction afterLiteral? quote t with
  | case1 | case2 | case3 => simp at h
  | case4 c tail _ ih => exact (ih h).trans ((List.suffix_cons c tail).trans (List.suffix_cons _ _))
  | case5 c tail =>
      cases h
      exact List.suffix_cons c _
  | case6 c tail _ _ _ ih => exact (ih h).trans (List.suffix_cons c tail)

theorem mem_blankStrings {t : Text} {c : Char} (h : c ∈ blankStrings t) : c ∈ t ∨ c = '\'' := by
  fun_induction blankStrings t with
  | case1 => simp at h
  | case2 d rest _ after found ih =>
      simp only [List.mem_cons] at h
      rcases h with h | h | h
      · exact .inr h
      · exact .inr h
      · rcases ih h with inside | quote
        · exact .inl (List.mem_cons_of_mem _ ((afterLiteral?_suffix found).subset inside))
        · exact .inr quote
  | case3 d rest _ _ ih | case4 d rest _ ih =>
      rcases List.mem_cons.mp h with rfl | h
      · exact .inl (by simp)
      · rcases ih h with inside | quote
        · exact .inl (List.mem_cons_of_mem _ inside)
        · exact .inr quote

end BlankStrings

/-! ## Weights -/

@[simp] theorem braces_append (a b : Text) : braces (a ++ b) = braces a + braces b := by
  simp only [braces, List.count_append]
  omega

@[simp] theorem parens_append (a b : Text) : parens (a ++ b) = parens a + parens b := by
  simp only [parens, List.count_append]
  omega

theorem braces_eq_zero {t : Text} (h : ∀ c ∈ t, c ≠ '\x7b' ∧ c ≠ '\x7d') : braces t = 0 := by
  rw [braces, List.count_eq_zero.mpr fun member => (h _ member).1 rfl,
    List.count_eq_zero.mpr fun member => (h _ member).2 rfl]
  rfl

theorem parens_eq_zero {t : Text} (h : ∀ c ∈ t, c ≠ '(' ∧ c ≠ ')') : parens t = 0 := by
  rw [parens, List.count_eq_zero.mpr fun member => (h _ member).1 rfl,
    List.count_eq_zero.mpr fun member => (h _ member).2 rfl]
  rfl

def HidesNoBrace (t : Text) : Prop :=
  ∀ c, c = '\x7b' ∨ c = '\x7d' → (blankStrings t).count c = t.count c

theorem HidesNoBrace.braces {t : Text} (h : HidesNoBrace t) :
    Line.braces (blankStrings t) = Line.braces t := by
  rw [Line.braces, Line.braces, h _ (.inl rfl), h _ (.inr rfl)]

theorem hidesNoBrace_of_unquoted {t : Text} (h : ∀ c ∈ t, isQuote c = false) : HidesNoBrace t := by
  intro c _
  rw [blankStrings_eq_self h]

/-- A text that opens `weight` braces more than it closes, literals emptied or not,
    and whose literals end inside it. -/
structure Weighs (weight : Int) (t : Text) : Prop where
  closed : ∀ rest, blankStrings (t ++ rest) = blankStrings t ++ blankStrings rest
  raw : braces t = weight
  hides : HidesNoBrace t

theorem Weighs.code {weight : Int} {t : Text} (h : Weighs weight t) :
    braces (blankStrings t) = weight :=
  h.hides.braces.trans h.raw

theorem Weighs.append {a b : Text} {m n : Int} (first : Weighs m a) (second : Weighs n b) :
    Weighs (m + n) (a ++ b) := by
  refine ⟨?_, ?_, ?_⟩
  · intro rest
    rw [List.append_assoc, first.closed, second.closed, first.closed, List.append_assoc]
  · rw [braces_append, first.raw, second.raw]
  · intro c brace
    rw [first.closed, List.count_append, List.count_append, first.hides c brace,
      second.hides c brace]

theorem weighs_of_unquoted {t : Text} (h : ∀ c ∈ t, isQuote c = false) : Weighs (braces t) t := by
  refine ⟨?_, rfl, hidesNoBrace_of_unquoted h⟩
  intro rest
  rw [blankStrings_append h, blankStrings_eq_self h]

/-- Whether a character is none of those that a line is cut, marked or commented by. -/
def isTidy (c : Char) : Bool :=
  c != '@' && c != '\n' && c != '/'

/-- Whether a character neither opens nor closes anything that is weighed. -/
def isLight (c : Char) : Bool :=
  isTidy c && !isQuote c && c != '\x7b' && c != '\x7d' && c != '\\'

/-- A piece of a line: it has a weight, and all its characters are tidy. -/
structure Snippet (weight : Int) (t : Text) : Prop extends Weighs weight t where
  tidy : t.all isTidy

theorem Snippet.append {a b : Text} {m n : Int} (first : Snippet m a) (second : Snippet n b) :
    Snippet (m + n) (a ++ b) := by
  refine ⟨first.toWeighs.append second.toWeighs, ?_⟩
  rw [List.all_append, first.tidy, second.tidy]
  rfl

theorem snippet_of_unquoted {t : Text} {weight : Int} (h : t.all fun c => isTidy c && !isQuote c)
    (level : braces t = weight) : Snippet weight t := by
  simp only [List.all_eq_true, Bool.and_eq_true, Bool.not_eq_true'] at h
  refine ⟨level ▸ weighs_of_unquoted fun c member => (h c member).2, ?_⟩
  rw [List.all_eq_true]
  exact fun c member => (h c member).1

theorem unquoted_of_light {t : Text} (light : t.all isLight) : ∀ e ∈ t, isQuote e = false := by
  intro e member
  have := List.all_eq_true.mp light e member
  simp only [isLight, Bool.and_eq_true, Bool.not_eq_true'] at this
  exact this.1.1.1.2

theorem snippet_light {t : Text} (h : t.all isLight) : Snippet 0 t := by
  simp only [List.all_eq_true, isLight, Bool.and_eq_true, Bool.not_eq_true', bne_iff_ne] at h
  apply snippet_of_unquoted
  · simp only [List.all_eq_true, Bool.and_eq_true, Bool.not_eq_true']
    exact fun c member => ⟨(h c member).1.1.1.1, (h c member).1.1.1.2⟩
  · exact braces_eq_zero fun c member => ⟨(h c member).1.1.2, (h c member).1.2⟩

/-- A literal weighs nothing. -/
theorem snippet_literal {s : Text} (h : s.all isLight) : Snippet 0 ('\'' :: (s ++ ['\''])) := by
  have light := List.all_eq_true.mp h
  have plain : ∀ c ∈ s, c ≠ '\'' ∧ c ≠ '\\' := by
    intro c member
    have := light c member
    simp only [isLight, isQuote, Bool.and_eq_true, Bool.not_eq_true', Bool.or_eq_false_iff,
      beq_eq_false_iff_ne, bne_iff_ne] at this
    exact ⟨this.1.1.1.2.1, this.2⟩
  have emptied : blankStrings ('\'' :: (s ++ ['\''])) = "''".toList := by
    have := blankStrings_literal plain []
    rwa [blankStrings_nil] at this
  refine ⟨⟨?_, ?_, ?_⟩, ?_⟩
  · intro rest
    rw [emptied, show '\'' :: (s ++ ['\'']) ++ rest = '\'' :: (s ++ '\'' :: rest) by simp,
      blankStrings_literal plain]
    rfl
  · have inside := (snippet_light h).raw
    rw [show '\'' :: (s ++ ['\'']) = "'".toList ++ (s ++ "'".toList) from rfl, braces_append,
      braces_append, inside]
    rfl
  · intro c brace
    have absent : c ∉ s := by
      intro member
      have := light c member
      rcases brace with rfl | rfl <;> simp [isLight] at this
    have other : c ≠ '\'' := by
      rcases brace with rfl | rfl <;> decide
    rw [emptied, List.count_eq_zero.mpr (by simp [other]),
      List.count_eq_zero.mpr (by simp [other, absent])]
  · rw [List.all_cons, List.all_append, (snippet_light h).tidy]
    rfl

/-! ## Lines that declare no field -/

theorem commentRemainder?_eq_none {t : Text} (h : '/' ∉ t) : commentRemainder? t = none := by
  cases start : t.trimStart with
  | nil => simp [commentRemainder?, start]
  | cons d rest =>
      have other : d ≠ '/' := by
        rintro rfl
        have inside : '/' ∈ t.trimStart := by simp [start]
        exact h ((List.dropWhile_suffix _).subset inside)
      simp [commentRemainder?, start, other]

seal commentRemainder? in
theorem dropComment_cons (c : Char) (rest : Text) :
    dropComment (c :: rest) = match commentRemainder? (c :: rest) with
      | some remainder => remainder
      | none => c :: dropComment rest := rfl

theorem dropComment_eq_self {t : Text} (h : '/' ∉ t) : dropComment t = t := by
  induction t with
  | nil => rfl
  | cons c rest ih =>
      rw [dropComment_cons, commentRemainder?_eq_none h,
        ih fun member => h (List.mem_cons_of_mem _ member)]

theorem code_eq {line : Text} (h : '/' ∉ line) : code line = (blankStrings line).trim := by
  rw [code, dropComment_eq_self]
  intro slash
  rcases mem_blankStrings slash with inside | quote
  · exact h inside
  · exact absurd quote (by decide)

theorem isField_eq_false_of_mark {a mark b : Text} (marked : mark ∈ excludedMarks)
    (unquoted : ∀ c ∈ a, isQuote c = false) (slash : '/' ∉ a ++ mark ++ b) (className : Text) :
    isField (a ++ mark ++ b) className = false := by
  have solid : ∀ mark ∈ excludedMarks, ∀ c ∈ mark, isBlank c = false ∧ isQuote c = false := by
    decide
  have inside : (code (a ++ mark ++ b)).has mark := by
    rw [Text.has_iff_infix, code_eq slash, List.append_assoc, blankStrings_append unquoted,
      blankStrings_append fun c member => (solid mark marked c member).2]
    exact Text.infix_trim ⟨a, blankStrings b, by simp⟩ fun c member =>
      (solid mark marked c member).1
  have found : (excludedMarks.any fun m => (code (a ++ mark ++ b)).has m) = true :=
    List.any_eq_true.mpr ⟨mark, marked, inside⟩
  simp only [isField, found]
  simp

theorem isField_eq_false_of_blank {line : Text} (blank : line.isBlankText) (className : Text) :
    isField line className = false := by
  have empty : code line = [] := by
    have slash : '/' ∉ line := by
      intro member
      exact absurd (List.all_eq_true.mp blank _ member) (by decide)
    have unquoted : ∀ c ∈ line, isQuote c = false := by
      intro c member
      have := List.all_eq_true.mp blank c member
      by_contra quote
      have quote : c = '\'' ∨ c = '"' := by
        simpa only [isQuote, Bool.not_eq_false, Bool.or_eq_true, beq_iff_eq] using quote
      rcases quote with rfl | rfl <;> exact absurd this (by decide)
    rw [code_eq slash, blankStrings_eq_self unquoted]
    exact Text.trim_of_isBlankText blank
  simp [isField, empty]

end ValueClass.Dart.Line
