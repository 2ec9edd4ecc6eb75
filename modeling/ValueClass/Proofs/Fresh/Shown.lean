import ValueClass.Proofs.Fresh.Constructor
import ValueClass.Proofs.Fresh.Methods
import ValueClass.Proofs.Member.Pending

/-! # What is written depends on the class alone

A fresh class is shown by many declarations: wherever it stands in a buffer, and
whether or not its constructor is written. The text of every method is the same for
all of them, and that of the constructor depends on the default values in the one
that is there.
-/

namespace ValueClass.Fresh

open Dart

/-- The constructor of a declaration, if there is one. -/
inductive ClassText.ShowsCtor (c : ClassText) (indent : Text) :
    Option CtorForms → Option Constructor → Prop where
  | missing : c.ShowsCtor indent none none
  | written {forms : CtorForms} {firstLine lastLine : Nat} : c.ShowsCtor indent (some forms)
      (some { text := Text.unlines (c.ctorLines forms indent), firstLine, lastLine
        := some lastLine })

/-- A declaration of a fresh class, without a constructor or with one that was
    written for it. -/
structure ClassText.Shows (c : ClassText) (old : Option CtorForms) (indent : Text) (d : ClassDecl) :
    Prop where
  header : ∃ extended, d.header = headerParts c.name extended
  fields : d.fields.map Field.unplaced = c.fields.map (·.field 1)
  ctor : c.ShowsCtor indent old d.ctor

theorem lookup_of_mem {l : List (Text × Option Text)} (once : (l.map Prod.fst).Nodup) {name : Text}
    {value : Option Text} (member : (name, value) ∈ l) : l.lookup name = some value := by
  induction l with
  | nil => simp at member
  | cons entry rest ih =>
      obtain ⟨other, first⟩ := entry
      rw [List.map_cons, List.nodup_cons] at once
      rcases List.mem_cons.mp member with same | later
      · cases same
        exact List.lookup_cons_self
      · have apart : (name == other) = false := by
          rw [beq_eq_false_iff_ne]
          rintro rfl
          exact once.1 (List.mem_map.mpr ⟨_, later, rfl⟩)
        rw [List.lookup_cons, apart]
        exact ih once.2 later

theorem unplaced_placed (fields : List FieldText) (lineNo : Nat) :
    (placed lineNo fields).map Field.unplaced = fields.map (·.field 1) := by
  induction fields generalizing lineNo with
  | nil => rfl
  | cons f rest ih =>
      rw [placed, List.map_cons, ih, List.map_cons]
      rfl

namespace ClassText

variable (c : ClassText) (old : Option CtorForms) (indent : Text)

theorem shows_plain : c.Shows none indent c.plain := by
  refine ⟨⟨false, rfl⟩, ?_, .missing⟩
  rw [plain_fields, List.map_map]
  rfl

/-- The lines of a constructor that may be there. -/
def oldCtor : Option (List Text) :=
  old.map fun forms => c.ctorLines forms indent

theorem showsCtor_readCtor (lineNo : Nat) :
    c.ShowsCtor indent old (readCtor lineNo (c.oldCtor old indent)) := by
  cases old with
  | none => exact .missing
  | some forms => exact .written

namespace Shows

variable {c : ClassText} {old : Option CtorForms} {indent : Text} {d : ClassDecl}

theorem name (h : c.Shows old indent d) : d.name = c.name := by
  obtain ⟨extended, same⟩ := h.header
  rw [ClassDecl.name, same]
  rfl

theorem type (h : c.Shows old indent d) : d.type = c.name := by
  obtain ⟨extended, same⟩ := h.header
  rw [ClassDecl.type, same]
  rfl

theorem isWidget (h : c.Shows old indent d) : d.header.isWidget = false := by
  obtain ⟨extended, same⟩ := h.header
  rw [same]
  cases extended <;> rfl

theorem placeless (h : c.Shows old indent d) :
    d.fields.map Field.unplaced = c.plain.fields.map Field.unplaced := by
  rw [h.fields, plain_fields, List.map_map]
  rfl

theorem map_fields (h : c.Shows old indent d) {α : Type} {g : Field → α}
    (level : ∀ f, g f.unplaced = g f) :
    d.fields.map g = (c.fields.map (·.field 1)).map g := by
  rw [Field.map_of_unplaced h.placeless level, plain_fields]

theorem fieldNames (h : c.Shows old indent d) : d.fieldNames = c.plain.fieldNames :=
  Field.map_of_unplaced h.placeless fun _ => rfl

theorem hasNamedConstructor (h : c.Shows old indent d) (ind : IsIndent indent) :
    d.hasNamedConstructor := by
  have shown := h.ctor
  rw [ClassDecl.hasNamedConstructor]
  generalize d.ctor = ctor at shown
  cases shown with
  | missing => rfl
  | @written forms firstLine lastLine =>
      obtain ⟨e, rest, name, upper⟩ := c.upper
      have whole : Text.unlines (c.ctorLines forms indent) =
          indent ++ ((c.name ++ "(".toList ++
            ('\x7b' :: c.ctorInner forms indent ++ "\x7d)".toList)) ++ [';']) := by
        rw [c.unlines_ctorLines]
        simp only [List.append_assoc, List.cons_append]
        rfl
      have trimmed : Text.trim (Text.unlines (c.ctorLines forms indent)) =
          (c.name ++ "(".toList ++ ('\x7b' :: c.ctorInner forms indent ++ "\x7d)".toList)) ++
            [';'] := by
        have solid : isBlank e = false := c.isIdentifier.solid e (by simp [name])
        rw [whole, Text.trim, Text.trimStart_append_of_blank ind.blank, name, List.cons_append,
          List.cons_append, List.cons_append, Text.trimStart_cons solid, ← List.cons_append,
          Text.trimEnd_concat (by decide)]
      have keyword : Text.dropStart? "const".toList
          (Text.trim (Text.unlines (c.ctorLines forms indent))) = none := by
        have apart : ∀ t, List.isPrefixOf ('c' :: "onst".toList) (e :: t) = false := by
          intro t
          rw [List.isPrefixOf_cons_cons, Bool.and_eq_false_iff]
          refine .inl ?_
          rw [beq_eq_false_iff_ne]
          rintro rfl
          exact absurd upper (by decide)
        rw [trimmed, name, Text.dropStart?, if_neg]
        rw [show "const".toList = 'c' :: "onst".toList from rfl, List.cons_append, List.cons_append,
          List.cons_append, apart]
        simp
      dsimp only
      rw [keyword, trimmed, h.name]
      refine List.isPrefixOf_iff_prefix.mpr ⟨c.ctorInner forms indent ++ "\x7d)".toList ++ [';'],
        ?_⟩
      simp only [List.append_assoc, List.cons_append]
      rfl

theorem namedFields (h : c.Shows old indent d) (ind : IsIndent indent) :
    d.namedFields = c.plain.namedFields := by
  have named := h.hasNamedConstructor ind
  rw [ClassDecl.namedFields]
  split
  · exact h.fieldNames
  · rw [if_pos named]
    exact h.fieldNames

theorem looksLike (h : c.Shows old indent d) (ind : IsIndent indent) : d.LooksLike c.plain :=
  ⟨h.name, h.type, h.placeless, h.namedFields ind⟩

/-! ## The constructor -/

theorem ofConstructor_eq (h : c.Shows old indent d) (ind : IsIndent indent) {ctor : Constructor}
    {forms : CtorForms} (text : ctor.text = Text.unlines (c.ctorLines forms indent)) :
    KeptParams.ofConstructor d ctor =
      { defaults := (c.fields.map fun f => (f.name, (forms.form f).default?)).reverse } := by
  have params : CtorParts.params ⟨[], .named, c.ctorInner forms indent, ";".toList⟩ =
      (c.fields.map (·.param forms), none) := by
    rw [CtorParts.params, c.splitTopLevel_ctorInner forms ind]
  have read : ∀ f : FieldText, FieldParam.ofText? (f.param forms) = some
      ⟨f.name, (forms.form f).default?⟩ :=
    fun f => ParamForm.ofText?_text (forms.isNew f) f.isIdentifier
  have extras : KeptParams.extrasOf (c.fields.map (·.param forms)) = [] := by
    rw [KeptParams.extrasOf, List.filter_eq_nil_iff]
    intro t member
    obtain ⟨f, -, rfl⟩ := List.mem_map.mp member
    rw [read f]
    simp
  have bound : KeptParams.boundOf d.fieldNames (c.fields.map (·.param forms)) =
      c.fields.map fun f => ⟨f.name, (forms.form f).default?⟩ := by
    have all : (c.fields.map (·.param forms)).filterMap FieldParam.ofText? =
        c.fields.map fun f => ⟨f.name, (forms.form f).default?⟩ := by
      rw [List.filterMap_map, ← List.filterMap_eq_map]
      exact List.filterMap_congr fun f _ => read f
    rw [KeptParams.boundOf, all, List.filter_eq_self]
    intro p member
    obtain ⟨f, inside, rfl⟩ := List.mem_map.mp member
    rw [List.contains_iff_mem, h.fieldNames, plain_fieldNames]
    exact List.mem_map_of_mem inside
  unfold KeptParams.ofConstructor
  rw [h.name, text, c.ofText_ctorLines forms ind]
  dsimp only
  rw [params]
  dsimp only [Option.map_none, Option.getD_none]
  rw [List.append_nil, bound, extras, List.map_map]
  rfl

theorem kept_eq (h : c.Shows old indent d) (ind : IsIndent indent) :
    ∃ defaults, KeptParams.ofClass d = { defaults } ∧ ∀ f ∈ c.fields,
      (defaults.lookup f.name).getD none = old.bind fun forms => (forms.form f).default? := by
  have shown := h.ctor
  rw [KeptParams.ofClass]
  generalize d.ctor = ctor at shown
  cases shown with
  | missing =>
      refine ⟨[], ?_, fun f _ => rfl⟩
      rw [h.isWidget]
      rfl
  | @written forms firstLine lastLine =>
      refine ⟨(c.fields.map fun f => (f.name, (forms.form f).default?)).reverse, ?_, ?_⟩
      · rw [h.isWidget]
        exact h.ofConstructor_eq ind rfl
      · intro f inside
        have once : ((c.fields.map fun f => (f.name, (forms.form f).default?)).reverse.map
          Prod.fst).Nodup := by
          rw [List.map_reverse, List.map_map, List.Nodup, List.pairwise_reverse]
          exact c.distinct.imp Ne.symm
        have member : (f.name, (forms.form f).default?) ∈
            (c.fields.map fun f => (f.name, (forms.form f).default?)).reverse :=
          List.mem_reverse.mpr (List.mem_map.mpr ⟨f, inside, rfl⟩)
        rw [lookup_of_mem once member, Option.getD_some, Option.bind_some]

/-- The constructor that is written has the forms that the style chooses over the old one. -/
theorem plan_eq (h : c.Shows old indent d) (ind : IsIndent indent) (style : Style) :
    ∃ defaults, ConstructorPlan.ofClass style d =
      { kept := { defaults },
        plain := c.fields.map fun f => (f.name, (CtorForms.next style old).form f),
        grouped := [] } := by
  obtain ⟨defaults, kept, chosen⟩ := h.kept_eq ind
  refine ⟨defaults, ?_⟩
  have plain : (d.fields.map fun f =>
      (f.name, ParamForm.choose style true f ((defaults.lookup f.name).getD none))) =
      c.fields.map fun f => (f.name, (CtorForms.next style old).form f) := by
    rw [h.map_fields (g :=
      fun f => (f.name, ParamForm.choose style true f ((defaults.lookup f.name).getD none)))
        fun _ => rfl,
      List.map_map]
    apply List.map_congr_left
    intro f inside
    show (f.name, ParamForm.choose style true (f.field 1) ((defaults.lookup f.name).getD none)) = _
    rw [chosen f inside]
    rfl
  have outside : (d.fields.filter fun f => !([] : List Text).contains f.name) = d.fields := by
    rw [List.filter_eq_self]
    intro f _
    rfl
  have inside : (d.fields.filter fun f => ([] : List Text).contains f.name) = [] := by
    rw [List.filter_eq_nil_iff]
    intro f _
    simp
  unfold ConstructorPlan.ofClass
  rw [kept]
  dsimp only
  rw [outside, inside]
  exact congrArg (fun plain => ConstructorPlan.mk { defaults } plain []) plain

/-- The text of the plan, with a line for every parameter. -/
theorem planText (h : c.Shows old indent d) (ind : IsIndent indent) (s : Surroundings) :
    (ConstructorPlan.ofClass s.style d).text s.indent d.name =
      Text.unlines ((c.name ++ "(\x7b".toList) ::
        (c.fields.map (fun f => s.indent ++ (f.param (.next s.style old) ++ [','])) ++
          ["\x7d);".toList])) := by
  obtain ⟨defaults, plan⟩ := h.plan_eq ind s.style
  generalize CtorForms.next s.style old = forms at plan
  have params : ConstructorPlan.paramLines s.indent
      ([] ++ (c.fields.map fun f => (f.name, forms.form f)).map fun p => p.2.text p.1) =
      c.fields.map fun f => s.indent ++ (f.param forms ++ [',']) := by
    rw [ConstructorPlan.paramLines, List.nil_append, List.map_map, List.map_map]
    apply List.map_congr_left
    intro f _
    simp only [Function.comp_apply, List.append_assoc]
    rfl
  have nonempty : (c.fields.map fun f => s.indent ++ (f.param forms ++ [','])).isEmpty = false := by
    simpa using c.nonempty
  rw [plan, h.name]
  unfold ConstructorPlan.text ConstructorPlan.listText ConstructorPlan.plainTexts
  dsimp only
  rw [params, nonempty]
  show c.name ++ ("(\x7b".toList ++ "\n".toList ++
    Text.unlines (c.fields.map fun f => s.indent ++ (f.param forms ++ [','])) ++ "\n".toList ++
      "\x7d)".toList) ++
      [] ++ ";".toList = _
  rw [Text.unlines_cons (by simp), Text.unlines_append (by simpa using c.nonempty) (by simp),
    Text.unlines_singleton]
  simp only [List.append_assoc, List.nil_append]
  rfl

/-- The text of the constructor. -/
theorem constructorText (h : c.Shows old indent d) (ind : IsIndent indent) {s : Surroundings}
    (level : IsIndent s.indent) :
    constructorText s d = Text.unlines (c.ctorLines (.next s.style old) s.indent) := by
  have text := h.planText ind s
  generalize CtorForms.next s.style old = forms at text
  have noFeed : ∀ line ∈ (c.name ++ "(\x7b".toList) ::
      (c.fields.map (fun f => s.indent ++ (f.param forms ++ [','])) ++ ["\x7d);".toList]),
        '\n' ∉ line := by
    intro line member
    simp only [List.mem_cons, List.mem_append, List.mem_map, List.not_mem_nil, or_false] at member
    rcases member with rfl | ⟨f, -, rfl⟩ | rfl
    · rw [List.mem_append, not_or]
      exact ⟨c.isIdentifier.notMem (by decide), by decide⟩
    · rw [List.mem_append, List.mem_append, not_or, not_or]
      exact ⟨level.noFeed, ParamForm.notMem_text (forms.isNew f) f.isIdentifier
        (by decide), by decide⟩
    · decide
  rw [Dart.constructorText, text, Text.indentBlock, Text.lines_unlines (by simp) noFeed,
    List.map_cons, List.map_append, List.map_map, List.map_singleton]
  obtain ⟨e, rest, same, -⟩ := c.upper
  have params : c.fields.map (indented s.indent ∘ fun f => s.indent ++ (f.param forms ++ [','])) =
      c.fields.map fun f => s.indent ++ (s.indent ++ (f.param forms ++ [','])) := by
    apply List.map_congr_left
    intro f _
    exact indented_of_mem (c := ',') (by simp) (by decide) s.indent
  have first : indented s.indent (c.name ++ "(\x7b".toList) =
      s.indent ++ (c.name ++ "(\x7b".toList) :=
    indented_of_mem (c := e) (by simp [same]) (c.isIdentifier.solid e (by simp [same])) s.indent
  have last : indented s.indent "\x7d);".toList = s.indent ++ "\x7d);".toList :=
    indented_of_mem (c := ';') (by decide) (by decide) s.indent
  show Text.unlines (indented s.indent (c.name ++ "(\x7b".toList) ::
    (c.fields.map (indented s.indent ∘ fun f => s.indent ++ (f.param forms ++ [','])) ++
      [indented s.indent "\x7d);".toList])) = _
  rw [params, first, last]
  rfl

end Shows

end ClassText

end ValueClass.Fresh
