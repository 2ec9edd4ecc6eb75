import ValueClass.Proofs.Edit.Body
import ValueClass.Proofs.Infer.FileImports
import ValueClass.Proofs.Infer.Visited

/-! # Rendered classes

An inferred class is a bare declaration: no member is found in it, so nothing is replaced
when its members are written, and its first and its last line stay where they are.
-/

namespace ValueClass

open Dart

/-! ## The characters of a declaration -/

/-- The characters of the lines that declare inferred fields. -/
def isDeclared (c : Char) : Bool :=
  Text.isPlain c || c == ' ' || c == '<' || c == '>' || c == ';'

abbrev Text.IsDeclared (t : Text) : Prop :=
  t.Only isDeclared

theorem Text.IsPlain.isDeclared {t : Text} (h : t.IsPlain) : t.IsDeclared :=
  h.mono fun c plain => by rw [ValueClass.isDeclared, plain]; rfl

theorem Text.IsDeclared.braces_eq_zero {t : Text} (h : t.IsDeclared) : Line.braces t = 0 :=
  Line.braces_eq_zero fun _ member =>
    ⟨fun brace => h.notMem (by decide) (brace ▸ member),
      fun brace => h.notMem (by decide) (brace ▸ member)⟩

namespace ObjectSketch

variable {dates : DateRule}

theorem isDeclared_scalarWord (value : Json) : (scalarWord dates value).IsDeclared := by
  cases value with
  | bool => exact (by decide : Text.IsDeclared "bool")
  | int => exact (by decide : Text.IsDeclared "int")
  | float => exact (by decide : Text.IsDeclared "double")
  | str t =>
      show Text.IsDeclared (if _ then "DateTime".toList else "String".toList)
      split <;> decide
  | null | arr | obj => exact (by decide : Text.IsDeclared "dynamic")

theorem isDeclared_spelled (named : Text) :
    ∀ value : Json, (ofValue dates named value).1.spelled.IsDeclared
  | .obj members => by
    rw [ofValue]
    exact (Name.isPlain_className named).isDeclared
  | .arr [] => by
    have unknown : Text.IsDeclared (TypeSketch.spelled (.list (.word "dynamic"))) := by decide
    exact unknown
  | .arr (item :: _) => by
    have opening : Text.IsDeclared "List<" := by decide
    have closing : Text.IsDeclared ">" := by decide
    rw [ofValue]
    exact (opening.append (isDeclared_spelled (Name.singular named) item)).append closing
  | .null | .bool _ | .int _ | .float _ | .str _ => by
    rw [ofValue] <;> first | exact isDeclared_scalarWord _ | simp

end ObjectSketch

namespace Infer

/-- The line that declares a field, without its end. -/
def declaration (indent : Text) (f : Field) : Text :=
  indent ++ "final " ++ f.rawType ++ " " ++ f.name ++ ";"

theorem isDeclared_indent {style : Style} {indent : Text} (usable : style.indent? = .ok indent) :
    indent.IsDeclared := by
  rw [Style.indent?] at usable
  split at usable
  · cases usable
    intro c member
    rw [List.eq_of_mem_replicate member]
    decide
  · cases usable

variable {style : Style} {test : DateTest} {indent named : Text} {members : List (Text × Json)}
  {s : Surroundings}

theorem isDeclared_declaration (usable : style.indent? = .ok indent) {f : Field}
    (listed : f ∈ (classFor style test indent named members).fields) :
    (declaration indent f).IsDeclared := by
  obtain ⟨i, found⟩ := List.mem_iff_getElem?.mp listed
  rw [classFor, fields_inferredClass, getElem?_inferredFields, ObjectSketch.ofObject,
    ObjectSketch.types_ofMembers, List.getElem?_map] at found
  cases member : members[i]? with
  | none => simp [member] at found
  | some pair =>
      obtain ⟨key, value⟩ := pair
      simp only [member, Option.map_some, Option.some.injEq] at found
      subst found
      have mark : Text.IsDeclared "final " := by decide
      have blank : Text.IsDeclared " " := by decide
      have final : Text.IsDeclared ";" := by decide
      have name : Text.IsDeclared (Name.varName key) := (Name.isPlain_varName key).isDeclared
      exact ((((isDeclared_indent usable).append mark).append
        (ObjectSketch.isDeclared_spelled key value)).append
        blank).append name |>.append final

/-! ## The lines -/

def opening (name : Text) : Text :=
  "class ".toList ++ (name ++ " \x7b".toList)

theorem notMem_opening {name : Text} (plain : name.IsPlain) {c : Char}
    (strange : Text.isPlain c = false) (other : c ∉ "class ".toList ∧ c ∉ " \x7b".toList) :
    c ∉ opening name := by
  intro member
  rcases List.mem_append.mp member with member | member
  · exact other.1 member
  · exact (List.mem_append.mp member).elim (plain.notMem strange) other.2

theorem braces_opening {name : Text} (plain : name.IsPlain) : Line.braces (opening name) = 1 := by
  have between : ∀ a b : Text, Line.braces a = 0 → Line.braces b = 1 →
      Line.braces (a ++ (name ++ b)) = 1 := by
    intro a b before after
    rw [Line.braces_append, Line.braces_append, before, plain.isDeclared.braces_eq_zero, after]
    rfl
  exact between _ _ (by decide) (by decide)

theorem lines_classFor (usable : style.indent? = .ok indent) :
    (classFor style test indent named members).lines = opening (Name.className named) ::
      ((classFor style test indent named members).fields.map (declaration indent) ++
        ["\x7d".toList]) := by
  have text : (classFor style test indent named members).content =
      Text.unlines (opening (Name.className named) ::
      ((classFor style test indent named members).fields.map (declaration indent) ++
        ["\x7d".toList])) := by
    have feed : ∀ f : Field, fieldLine indent f.rawType f.name = declaration indent f ++
        ['\n'] := by
      intro f
      have final : ";\n".toList = ";".toList ++ ['\n'] := by decide
      show indent ++ "final ".toList ++ f.rawType ++ " ".toList ++ f.name ++ ";\n".toList = _
      rw [final]
      exact (List.append_assoc _ _ _).symm
    have shape : ∀ head name brace last : Text, ∀ fields : List Text,
        head ++ (name ++ ' ' :: (brace ++ '\n' :: (fields.flatMap (· ++ ['\n']) ++ last))) =
          Text.unlines ((head ++ (name ++ ' ' :: brace)) :: (fields ++ [last])) := by
      intro head name brace last fields
      rw [Text.unlines_cons (by simp), Text.unlines_concat]
      simp only [List.append_assoc, List.cons_append]
    rw [classFor, content_inferredClass, skeleton_eq, List.flatMap_map, fields_inferredClass]
    refine Eq.trans ?_ (shape "class ".toList (Name.className named) "\x7b".toList "\x7d".toList _)
    rw [List.flatMap_map]
    exact congrArg (fun declared => "class ".toList ++
      (Name.className named ++ ' ' :: ("\x7b\n".toList ++
      (declared ++ "\x7d".toList)))) (List.flatMap_congr fun f _ => feed f)
  have lines : (classFor style test indent named members).lines =
      (classFor style test indent named members).content.lines := by
    rw [classFor, content_inferredClass, inferredClass_lines]
  rw [lines, text]
  refine Text.lines_unlines (by simp) ?_
  intro line member
  rcases List.mem_cons.mp member with rfl | member
  · exact notMem_opening (Name.isPlain_className named) (by decide) (by decide)
  · rcases List.mem_append.mp member with member | member
    · obtain ⟨f, listed, rfl⟩ := List.mem_map.mp member
      exact (isDeclared_declaration usable listed).notMem (by decide)
    · rw [List.mem_singleton.mp member]
      decide

/-! ## Nothing is found -/

theorem findFrom_eq_none_of_low {ls : List Text} {depth : Int} (low : depth ≤ 1)
    (calm : ∀ line ∈ ls, Line.braces line ≤ 0 ∧ line.has "=>" = false) (target : Text)
    (lineNo : Nat) :
    ClassDecl.findFrom target depth lineNo ls = none := by
  induction ls generalizing depth lineNo with
  | nil => rfl
  | cons line rest ih =>
      obtain ⟨level, arrowless⟩ := calm line List.mem_cons_self
      have passed : (depth + Line.braces line == 2) = false := by
        rw [beq_eq_false_iff_ne]
        omega
      rw [ClassDecl.findFrom]
      dsimp only
      rw [passed, arrowless, Bool.or_self, Bool.and_false]
      exact ih (by omega) (fun l member => calm l (List.mem_cons_of_mem _ member)) _

theorem has_arrow_eq_false {line : Text} (none : '=' ∉ line) : line.has "=>" = false := by
  rw [Bool.eq_false_iff]
  intro arrow
  obtain ⟨before, after, rfl⟩ := Text.has_iff_infix.mp arrow
  exact none (List.mem_append_left _ (List.mem_append_right _ (by decide)))

theorem find?_classFor (usable : style.indent? = .ok indent) (finder : Text) :
    (classFor style test indent named members).find? finder = none := by
  have name := Name.isPlain_className named
  have calm : ∀ line ∈ (classFor style test indent named members).fields.map (declaration indent) ++
      ["\x7d".toList],
      Line.braces line ≤ 0 ∧ line.has "=>" = false := by
    intro line member
    rcases List.mem_append.mp member with member | member
    · obtain ⟨f, listed, rfl⟩ := List.mem_map.mp member
      have declared := isDeclared_declaration usable listed
      exact ⟨declared.braces_eq_zero.le, has_arrow_eq_false (declared.notMem (by decide))⟩
    · rw [List.mem_singleton.mp member]
      decide
  have arrowless : (opening (Name.className named)).has "=>" = false :=
    has_arrow_eq_false (notMem_opening name (by decide) (by decide))
  -- Behind the first line one brace is open, and no other line opens one.
  rw [ClassDecl.find?, lines_classFor usable, ClassDecl.findFrom]
  dsimp only
  rw [braces_opening name, arrowless, Bool.or_false, show ((0 : Int) + 1 == 2) = false by decide,
    Bool.and_false]
  exact findFrom_eq_none_of_low (by decide) calm _ _

/-! ## The text -/

section Draft

variable {d : Draft}

/-- Where nothing is replaced, and nothing is put behind it, the last line stays the last. -/
theorem bodyTexts_concat (nothing : d.replacements = []) (closing : Text) {body : List Text}
    {lineNo : Nat} (free : d.insertedAfter (lineNo + body.length) = []) (written : List Text) :
    ∃ texts, d.bodyTexts written lineNo (body ++ [closing]) = texts ++ [closing] := by
  have uncovered : ∀ i, d.replacementAt? i = none := by
    intro i
    rw [Draft.replacementAt?, nothing]
    rfl
  -- The number of the last line stays the same while the lines above it are written.
  induction body generalizing lineNo with
  | nil =>
      rw [List.length_nil, Nat.add_zero] at free
      have texts : ∃ texts, (d.lineTexts written lineNo true closing).1 = texts ++ [closing] := by
        rw [Draft.lineTexts, uncovered]
        dsimp only
        split
        · exact ⟨[d.appended], rfl⟩
        · exact ⟨[], rfl⟩
      obtain ⟨texts, same⟩ := texts
      rw [List.nil_append, Draft.bodyTexts, List.isEmpty_nil, free]
      dsimp only
      rw [same, Draft.bodyTexts, List.append_nil, List.append_nil]
      exact ⟨texts, rfl⟩
  | cons line more ih =>
      rw [List.length_cons, ← Nat.add_assoc, Nat.add_right_comm] at free
      obtain ⟨texts, same⟩ := ih free
      rw [List.cons_append, Draft.bodyTexts, Draft.lineTexts, uncovered]
      dsimp only
      rw [same, ← List.append_assoc]
      exact ⟨_, rfl⟩

theorem useEquatable_modifiers (d : Draft) :
    d.useEquatable.decl.header.modifiers = d.decl.header.modifiers ∧
      d.useEquatable.decl.header.isAbstract = d.decl.header.isAbstract := by
  simp only [Draft.useEquatable, Draft.setSuperclass, Draft.addMixin]
  split
  · exact ⟨rfl, rfl⟩
  · split <;> split <;> exact ⟨rfl, rfl⟩

end Draft

theorem exists_render_header {h : Header} (modifiers : h.modifiers = [])
    (concrete : h.isAbstract = false) (name : Text) :
    ∃ rest, h.render (opening name) = "class ".toList ++ rest := by
  have front : ∀ indent marks word a b c e f g : Text, indent = [] → marks = [] →
      indent ++ marks ++ word ++ a ++ b ++ c ++ e ++ f ++ g =
        word ++ (a ++ (b ++ (c ++ (e ++ (f ++ g))))) := by
    rintro _ _ word a b c e f g rfl rfl
    simp only [List.nil_append, List.append_assoc]
  refine ⟨_, front _ _ _ _ _ _ _ _ _ rfl ?_⟩
  rw [modifiers, concrete]
  rfl

def classText (s : Surroundings) (c : ClassDecl) : Text :=
  (writtenDraft s none c).render

theorem present?_classFor (usable : style.indent? = .ok indent) (kind : MemberKind) :
    present? (classFor style test indent named members) kind = none := by
  by_cases method : kind = .constructor
  · rw [method]
    rfl
  · rw [present?_of_method _ method]
    exact find?_classFor usable _

theorem replacements_writtenDraft (usable : style.indent? = .ok indent) :
    (writtenDraft s none (classFor style test indent named members)).replacements = [] := by
  rw [writtenDraft]
  split
  · rw [(draftFor_pending _ _ _).2.2, List.filterMap_eq_nil_iff]
    intro kind _
    rw [replacementFor?, present?_classFor usable]
  · rfl

theorem writtenDraft_modifiers (s : Surroundings) (selector : Option MemberKind) (c : ClassDecl) :
    (writtenDraft s selector c).decl.header.modifiers = c.header.modifiers ∧
      (writtenDraft s selector c).decl.header.isAbstract = c.header.isAbstract := by
  rw [writtenDraft]
  split
  · show (headerFor { decl := c } _).decl.header.modifiers = _ ∧
        (headerFor { decl := c } _).decl.header.isAbstract = _
    rw [headerFor]
    split
    · exact useEquatable_modifiers { decl := c }
    · exact ⟨rfl, rfl⟩
  · exact ⟨rfl, rfl⟩

theorem line_lt_of_mem_fields {f : Field}
    (listed : f ∈ (classFor style test indent named members).fields) :
    f.line < 2 + (classFor style test indent named members).fields.length := by
  obtain ⟨i, found⟩ := List.mem_iff_getElem?.mp listed
  have within := (List.getElem?_eq_some_iff.mp found).1
  rw [classFor, fields_inferredClass, getElem?_inferredFields] at found
  obtain ⟨pair, -, same⟩ := Option.map_eq_some_iff.mp found
  rw [← same]
  exact Nat.add_lt_add_left within 2

/-- The text of an inferred class runs from the keyword to the last brace. -/
theorem classText_eq (usable : style.indent? = .ok indent) :
    ∃ middle, classText s (classFor style test indent named members) = "class ".toList ++
      (middle ++ ['\x7d']) := by
  let d := writtenDraft s none (classFor style test indent named members)
  have alike : d.decl.Alike (classFor style test indent named members) := alike_writtenDraft _ _ _
  have free : d.insertedAfter (d.decl.firstLine + 1 +
      ((classFor style test indent named members).fields.map (declaration indent)).length) =
        [] := by
    rw [Draft.insertedAfter, if_neg]
    rw [Bool.and_eq_true, beq_iff_eq, not_and]
    intro _ last
    rw [ClassDecl.lastFieldLine?, alike.fields, alike.firstLine] at last
    obtain ⟨f, final, line⟩ := Option.map_eq_some_iff.mp last
    have lower := line_lt_of_mem_fields (List.mem_of_getLast? final)
    rw [line, List.length_map] at lower
    exact absurd lower (Nat.lt_irrefl _)
  obtain ⟨texts, body⟩ :=
    bodyTexts_concat (replacements_writtenDraft (s := s) usable) ['\x7d'] free []
  obtain ⟨first, opens⟩ :
      ∃ first, (if d.headerChanged then d.decl.header.render (opening (Name.className named))
      else opening (Name.className named)) = "class ".toList ++ first := by
    split
    · obtain ⟨modifiers, concrete⟩ :=
        writtenDraft_modifiers s none (classFor style test indent named members)
      exact exists_render_header modifiers concrete _
    · exact ⟨_, rfl⟩
  have rendered : classText s (classFor style test indent named members) =
      Text.unlines (("class ".toList ++ first) ::
        (d.insertedAfter d.decl.firstLine ++ (texts ++ [['\x7d']]))) := by
    rw [classText, Draft.render, alike.lines, lines_classFor usable]
    dsimp only
    rw [← opens]
    exact congrArg (fun behind => Text.unlines (_ :: (_ ++ behind))) body
  rw [rendered, ← List.append_assoc, Text.unlines_cons (by simp), Text.unlines_concat,
    List.append_assoc]
  refine ⟨first ++ '\n' :: ((d.insertedAfter d.decl.firstLine ++ texts).flatMap fun line =>
    line ++ ['\n']), ?_⟩
  exact congrArg ("class ".toList ++ ·) (by rw [List.append_assoc first, List.cons_append])

theorem framed_classText (usable : style.indent? = .ok indent) :
    Text.Framed (Text.trimmedLines (classText s (classFor style test indent named members))) := by
  have ends : ∃ middle, classText s (classFor style test indent named members) =
      "class ".toList ++ (middle ++ ['\x7d']) := classText_eq usable
  obtain ⟨middle, same⟩ := ends
  rw [same]
  exact Text.framed_of_ends (by decide) (by decide) ("lass ".toList ++ middle)

end Infer

end ValueClass
