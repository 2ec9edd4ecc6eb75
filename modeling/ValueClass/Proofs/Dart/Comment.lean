import ValueClass.Dart.Line
import ValueClass.Proofs.Text.Trim

/-! # Comments

What a reader of Dart is in the middle of behind some lines: plain code, a literal that goes
on in the next line, or block comments, which can stand in one another. An interpolation is
taken for a part of its literal.
-/

namespace ValueClass.Dart

structure Quotes where
  /-- Whether they are double quotes. -/
  double : Bool
  /-- Whether there are three of them, so that the literal can go on in the next line. -/
  long : Bool
  /-- Whether a backslash stands for itself. -/
  raw : Bool
  deriving Repr, DecidableEq

namespace Quotes

def closing (q : Quotes) : Text :=
  List.replicate (if q.long then 3 else 1) (if q.double then '"' else '\'')

def opening (q : Quotes) : Text :=
  if q.raw then 'r' :: q.closing else q.closing

/-- All quotes. Three of them are looked for before a single one. -/
def all : List Quotes :=
  [true, false].flatMap fun long => [true, false].flatMap fun raw =>
    [true, false].map fun double => { double, long, raw }

end Quotes

inductive Place where
  /-- Nothing but code. -/
  | code
  /-- A comment that ends with its line. -/
  | remark
  /-- A block comment, with a number of comments open inside it. -/
  | comment (inner : Nat)
  | literal (quotes : Quotes)
  deriving Repr, DecidableEq

namespace Place

/-- Where a reader is behind the first characters of a text, and how many characters there are
    behind the first one that go with it. -/
def next : Place → Text → Place × Nat
  | code, t =>
    if t.startsWith "//" then (remark, 1)
    else if t.startsWith "/*" then (comment 0, 1)
    else match Quotes.all.find? fun q => t.startsWith q.opening with
      | some q => (literal q, q.opening.length - 1)
      | none => (code, 0)
  | remark, _ => (remark, 0)
  | comment inner, t =>
    if t.startsWith "/*" then (comment (inner + 1), 1)
    else if t.startsWith "*/" then (if inner = 0 then code else comment (inner - 1), 1)
    else (comment inner, 0)
  | literal q, t =>
    if t.startsWith q.closing then (code, q.closing.length - 1)
    else (literal q, if t.startsWith "\\" && !q.raw then 1 else 0)

/-- Where a reader is at the start of the next line. -/
def wrap : Place → Place
  | remark => code
  | literal q => if q.long then literal q else code
  | place => place

/-- Where a reader is at the start of the next line, with some characters of this one passed
    already. -/
def past : Nat → Place → Text → Place
  | _, place, [] => place.wrap
  | skipped + 1, place, _ :: rest => past skipped place rest
  | 0, place, c :: rest =>
    let (inside, more) := place.next (c :: rest)
    past more inside rest

def behind (lines : List Text) : Place :=
  lines.foldl (past 0) code

theorem behind_concat (lines : List Text) (line : Text) :
    behind (lines ++ [line]) = past 0 (behind lines) line := by
  rw [behind, List.foldl_append]
  rfl

/-- The characters that something starts or ends with. -/
def marks : List Char :=
  ['/', '*', '\\', 'r', '\'', '"']

theorem startsWith_of_blank {c : Char} (blank : isBlank c) (rest : Text) {d : Char}
    (mark : d ∈ marks) (more : Text) :
    Text.startsWith (c :: rest) (d :: more) = false := by
  have solid : ∀ d ∈ marks, isBlank d = false := by decide
  have apart : d ≠ c := by
    rintro rfl
    rw [solid d mark] at blank
    cases blank
  simp [Text.startsWith, List.isPrefixOf, apart]

theorem startsWith_quotes_of_blank {c : Char} (blank : isBlank c) (rest : Text) (q : Quotes) :
    Text.startsWith (c :: rest) q.opening = false ∧
      Text.startsWith (c :: rest) q.closing = false := by
  obtain ⟨double, long, raw⟩ := q
  cases double <;> cases long <;> cases raw <;>
    exact ⟨startsWith_of_blank blank rest (by decide) _,
      startsWith_of_blank blank rest (by decide) _⟩

theorem next_of_blank (place : Place) {c : Char} (blank : isBlank c) (rest : Text) :
    place.next (c :: rest) = (place, 0) := by
  have starts := fun d mark more => startsWith_of_blank blank rest (d := d) mark more
  have quotes := startsWith_quotes_of_blank blank rest
  cases place with
  | code =>
      have none : (Quotes.all.find? fun q => Text.startsWith (c :: rest) q.opening) = none :=
        List.find?_eq_none.mpr fun q _ => by simp [(quotes q).1]
      simp [next, starts '/' (by decide), none]
  | remark => rfl
  | comment inner => simp [next, starts '/' (by decide), starts '*' (by decide)]
  | literal q => simp [next, (quotes q).2, starts '\\' (by decide)]

theorem past_of_blank (place : Place) {line : Text} (blank : line.isBlankText) :
    past 0 place line = place.wrap := by
  induction line with
  | nil => rfl
  | cons c rest ih =>
      simp only [Text.isBlankText, List.all_cons, Bool.and_eq_true] at blank
      rw [past, next_of_blank place blank.1]
      exact ih blank.2

theorem wrap_wrap (place : Place) : place.wrap.wrap = place.wrap := by
  cases place with
  | literal q => cases long : q.long <;> simp [wrap, long]
  | code | remark | comment inner => rfl

theorem wrap_past (skipped : Nat) (place : Place) (line : Text) :
    (past skipped place line).wrap = past skipped place line := by
  fun_induction past skipped place line with
  | case1 => exact wrap_wrap _
  | case2 skipped place c rest ih => exact ih
  | case3 place c rest inside more step ih => exact ih

theorem wrap_behind (lines : List Text) : (behind lines).wrap = behind lines := by
  rcases List.eq_nil_or_concat lines with rfl | ⟨front, last, rfl⟩
  · rfl
  · rw [List.concat_eq_append, behind_concat, wrap_past]

theorem behind_append_of_blank (lines : List Text) {gap : List Text}
    (blank : ∀ line ∈ gap, line.isBlankText) :
    behind (lines ++ gap) = behind lines := by
  induction gap generalizing lines with
  | nil => rw [List.append_nil]
  | cons line rest ih =>
      obtain ⟨here, later⟩ := List.forall_mem_cons.mp blank
      rw [List.append_cons, ih _ later, behind_concat, past_of_blank _ here, wrap_behind]

def isComment : Place → Bool
  | comment _ => true
  | _ => false

end Place

/-- Whether some lines end in a line of documentation. -/
def endsInDoc (lines : List Text) : Bool :=
  Place.behind lines.dropLast == .code && lines.getLast?.any fun line => line.trim.startsWith "///"

/-- A place between lines that does not lie inside of a block comment, nor between
    documentation and the declaration that it is about. -/
structure IsClear (above below : List Text) : Prop where
  closed : (Place.behind above).isComment = false
  apart : endsInDoc above → ∀ declaration, below.head? = some declaration → declaration.trim = []

end ValueClass.Dart
