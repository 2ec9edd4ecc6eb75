import ValueClass.Proofs.Dart.Continuation
import ValueClass.Proofs.Text.Listed

/-! # Declarations over several lines

A declaration ends with the first semicolon outside brackets, on the line it starts on or
on one below. The scanner puts a field down at the line its name is read on and does not
look for the semicolon; so the last field of a class stands at the end of its declaration
just when that declaration is laid out on one line.
-/

namespace ValueClass

namespace Text.Passes

variable {step : Char → Int} {cuts : Char → Bool} {depth behind : Int} {c : Char}

theorem not_append_cut {front rest : Text} (level : step c = 0) (cut : cuts c)
    (first : Passes step cuts depth front 0) :
    ¬ Passes step cuts depth (front ++ c :: rest) behind := by
  induction front generalizing depth with
  | nil =>
      rw [Passes] at first
      rintro ⟨here, -⟩
      exact here cut (by rw [first, level, Int.add_zero])
  | cons d front ih => exact fun whole => ih first.2 whole.2

theorem eq_of_append_cut {a b x y : Text} (level : step c = 0) (cut : cuts c)
    (first : Passes step cuts depth a 0) (second : Passes step cuts depth b 0)
    (same : a ++ c :: x = b ++ c :: y) : a = b ∧ x = y := by
  rcases List.append_eq_append_iff.mp same with ⟨more, rfl, behind⟩ | ⟨more, rfl, behind⟩
  · cases more with
    | nil => simpa using behind
    | cons d more =>
        obtain ⟨rfl, -⟩ := List.cons.inj behind
        exact absurd second (not_append_cut level cut first)
  · cases more with
    | nil => simpa using behind.symm
    | cons d more =>
        obtain ⟨rfl, -⟩ := List.cons.inj behind
        exact absurd first (not_append_cut level cut second)

end Text.Passes

namespace Dart

/-! ## Where a declaration ends -/

namespace Line

/-- How a character changes the depth of the brackets that group code. -/
def groupStep (c : Char) : Int :=
  if c == '(' || c == '[' || c == '\x7b' then 1
  else if c == ')' || c == ']' || c == '\x7d' then -1
  else 0

/-- Code that goes from one depth of brackets to another and has no semicolon outside
    them. -/
abbrev GoesOn : Int → Text → Int → Prop :=
  Text.Passes groupStep (· == ';')

/-- Whether the code of a line ends with the semicolon that ends what starts there. -/
def EndsDeclaration (line : Text) : Prop :=
  ∃ front, code line = front ++ [';'] ∧ GoesOn 0 front 0

/-- A declaration takes some lines, `depth` brackets being open before them: the semicolon
    that ends it stands on the last one, and `behind` follows it there. -/
inductive Layout : Int → List Text → Text → Prop
  /-- The declaration ends on this line. -/
  | ends {depth : Int} {line front behind : Text} (split : code line = front ++ ';' :: behind)
      (passes : GoesOn depth front 0) : Layout depth [line] behind
  /-- The declaration goes on below this line. -/
  | goesOn {depth between : Int} {line : Text} {more : List Text} {behind : Text}
      (passes : GoesOn depth (code line) between) (below : Layout between more behind) :
      Layout depth (line :: more) behind

variable {depth : Int} {line behind : Text} {more : List Text}

theorem Layout.ne_nil {ls : List Text} (layout : Layout depth ls behind) : ls ≠ [] := by
  cases layout <;> exact List.cons_ne_nil _ _

theorem endsDeclaration_iff (layout : Layout 0 (line :: more) behind) :
    EndsDeclaration line ↔ more = [] ∧ behind = [] := by
  cases layout with
  | @ends _ _ front _ split passes =>
      constructor
      · rintro ⟨whole, code, ends⟩
        obtain ⟨-, none⟩ := ends.eq_of_append_cut (c := ';') rfl rfl passes (code.symm.trans split)
        exact ⟨rfl, none.symm⟩
      · rintro ⟨-, rfl⟩
        exact ⟨front, split, passes⟩
  | goesOn passes below =>
      constructor
      · rintro ⟨front, code, ends⟩
        rw [code] at passes
        exact absurd passes (ends.not_append_cut rfl rfl)
      · rintro ⟨rfl, -⟩
        exact absurd rfl below.ne_nil

end Line

/-! ## The line of the last field -/

/-- The fields of a class end at a line: it is taken for a field, none below it is, and the
    class goes on there. -/
structure ClassDecl.FieldsEndAt (text : Text) (c : ClassDecl) (above : List Text) (line : Text)
    (below : List Text) :
    Prop where
  lines : c.lines = above ++ line :: below
  last : c.lastFieldLine? = some (c.firstLine + above.length)
  takes : c.TakesField text above.length
  later : ∀ k, above.length < k → ¬ c.TakesField text k
  goesOn : below ≠ []

theorem ClassDecl.FieldsEndAt.unique {text : Text} {c : ClassDecl}
    {above above' below below' : List Text} {line line' : Text}
    (ends : c.FieldsEndAt text above line below) (lines : c.lines = above' ++ line' :: below')
    (last : c.lastFieldLine? = some (c.firstLine + above'.length)) :
    above = above' ∧ line = line' ∧ below = below' := by
  have place : c.firstLine + above.length = c.firstLine + above'.length :=
    Option.some.inj (ends.last.symm.trans last)
  obtain ⟨upper, lower⟩ := List.append_inj (ends.lines.symm.trans lines) (Nat.add_left_cancel place)
  exact ⟨upper, List.cons.inj lower⟩

/-- The fields of a valid class end at one of its lines. -/
theorem exists_fieldsEndAt {text : Text} {c : ClassDecl} (member : c ∈ scan text)
    (valid : c.isValid) {closing : Nat} (closes : c.lastLine = some closing) :
    ∃ above line below, c.FieldsEndAt text above line below := by
  have represents := represents_of_mem_scan member
  obtain ⟨others, f, fields⟩ : ∃ others f, c.fields = others ++ [f] := by
    rcases List.eq_nil_or_concat c.fields with none | ⟨others, f, same⟩
    · simp [ClassDecl.isValid, ClassDecl.issue?, none] at valid
    · exact ⟨others, f, by rw [same, List.concat_eq_append]⟩
  have own : f ∈ c.fields := by simp [fields]
  have low := (represents.inside f own).1
  have high := represents.above closing closes f own
  have ending := represents.ending closing closes
  obtain ⟨k, place⟩ : ∃ k, f.line = c.firstLine + k := ⟨f.line - c.firstLine, by omega⟩
  have within : k < c.lines.length := by omega
  refine ⟨c.lines.take k, c.lines[k], c.lines.drop (k + 1), ?_⟩
  have size : (c.lines.take k).length = k := by rw [List.length_take]; omega
  refine ⟨?_, ?_, ?_, ?_, ?_⟩
  · rw [List.getElem_cons_drop, List.take_append_drop]
  · rw [ClassDecl.lastFieldLine?, fields, List.getLast?_concat, size, Option.map_some, place]
  · rw [size]
    exact (exists_field_iff member k).mp ⟨f, own, place⟩
  · intro j later takes
    rw [size] at later
    obtain ⟨g, inside, there⟩ := (exists_field_iff member j).mpr takes
    have ordered := represents.ordered
    rw [fields, List.map_append, List.pairwise_append] at ordered
    rw [fields, List.mem_append, List.mem_singleton] at inside
    rcases inside with earlier | rfl
    · have := ordered.2.2 g.line (List.mem_map_of_mem earlier) f.line (by simp)
      omega
    · omega
  · rw [← List.length_pos_iff, List.length_drop]
    omega

end Dart

end ValueClass
