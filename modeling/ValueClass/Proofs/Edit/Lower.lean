import ValueClass.Edit.Plan
import ValueClass.Proofs.Dart.Lower
import ValueClass.Proofs.Member.Pending
import ValueClass.Proofs.Member.Search

/-! # Drafts further down

What is pending for a class goes down with it: the same texts, and the same spans
further down. So the edit of the class has the same text wherever the class stands.
-/

namespace ValueClass

def LineEdit.lower (by_ : Nat) (e : LineEdit) : LineEdit :=
  { e with start := e.start + by_, stop := e.stop + by_ }

namespace Dart

def Span.lower (by_ : Nat) (span : Span) : Span :=
  { span with first := span.first + by_, last := span.last + by_ }

def Replacement.lower (by_ : Nat) (r : Replacement) : Replacement :=
  { r with span := r.span.lower by_ }

def Draft.lower (by_ : Nat) (d : Draft) : Draft :=
  { d with decl := d.decl.lower by_, replacements := d.replacements.map (·.lower by_) }

/-! ## The class -/

namespace ClassDecl

variable (by_ : Nat) (c : ClassDecl)

theorem findFrom_lower (target : Text) (depth : Int) (lineNo : Nat) (lines : List Text) :
    findFrom target depth (lineNo + by_) lines = (findFrom target depth lineNo lines).map
      (·.lower by_) := by
  induction lines generalizing depth lineNo with
  | nil => rfl
  | cons line rest ih =>
      rw [findFrom, findFrom]
      split
      · rw [takeMember_add, Option.map_map, Option.map_map]
        rfl
      · rw [show lineNo + by_ + 1 = lineNo + 1 + by_ by omega, ih]

theorem ctor_lower : (c.lower by_).ctor = c.ctor.map (·.lower by_) := rfl

theorem fieldNames_lower : (c.lower by_).fieldNames = c.fieldNames := by
  rw [fieldNames, fieldNames, lower, List.map_map]
  rfl

theorem hasNamedConstructor_lower : (c.lower by_).hasNamedConstructor = c.hasNamedConstructor := by
  rw [hasNamedConstructor, hasNamedConstructor, ctor_lower]
  cases c.ctor <;> rfl

theorem namedFields_lower : (c.lower by_).namedFields = c.namedFields := by
  rw [namedFields, namedFields, ctor_lower, fieldNames_lower, hasNamedConstructor_lower]
  cases c.ctor <;> rfl

theorem looksLike_lower : (c.lower by_).LooksLike c := by
  refine ⟨rfl, rfl, ?_, c.namedFields_lower by_⟩
  rw [lower, List.map_map]
  rfl

theorem kept_lower : KeptParams.ofClass (c.lower by_) = KeptParams.ofClass c := by
  have same : ∀ ctor : Constructor,
      KeptParams.ofConstructor (c.lower by_) (ctor.lower by_) =
        KeptParams.ofConstructor c ctor := by
    intro ctor
    unfold KeptParams.ofConstructor
    rw [fieldNames_lower]
    rfl
  rw [KeptParams.ofClass, KeptParams.ofClass, ctor_lower]
  cases c.ctor with
  | none => rfl
  | some ctor =>
      have closed : (ctor.lower by_).lastLine.isSome = ctor.lastLine.isSome := Option.isSome_map
      simp only [Option.map_some, same, closed]
      rfl

theorem plan_lower (style : Style) :
    ConstructorPlan.ofClass style (c.lower by_) = ConstructorPlan.ofClass style c := by
  have fields : (c.lower by_).fields = c.fields.map (·.lower by_) := rfl
  simp only [ConstructorPlan.ofClass, kept_lower, fields, List.filter_map, List.map_map]
  rfl

theorem constructorText_lower (s : Surroundings) :
    constructorText s (c.lower by_) = constructorText s c := by
  rw [constructorText, plan_lower]
  rfl

theorem memberText_lower (s : Surroundings) (kind : MemberKind) :
    memberText s (c.lower by_) kind = memberText s c kind := by
  simp only [memberText, constructorText_lower, (c.looksLike_lower by_).methodText]

theorem present?_lower (kind : MemberKind) :
    present? (c.lower by_) kind = (present? c kind).map (·.lower by_) := by
  have method : (c.lower by_).find? (Method.finder (c.lower by_) kind) =
      (c.find? (Method.finder c kind)).map (·.lower by_) := by
    rw [(c.looksLike_lower by_).finder, find?, find?]
    exact findFrom_lower ..
  cases kind
  case constructor =>
    simp only [present?, ctor_lower]
    cases c.ctor with
    | none => rfl
    | some ctor =>
        obtain ⟨text, firstLine, lastLine⟩ := ctor
        cases lastLine <;> rfl
  all_goals exact method

theorem replacementFor?_lower (s : Surroundings) (kind : MemberKind) :
    replacementFor? s (c.lower by_) kind = (replacementFor? s c kind).map (·.lower by_) := by
  rw [replacementFor?, replacementFor?, present?_lower, memberText_lower]
  cases present? c kind with
  | none => rfl
  | some span =>
      dsimp only [Option.map_some]
      rw [show (span.lower by_).text = span.text from rfl]
      split <;> rfl

theorem appendedFor_lower (s : Surroundings) (kind : MemberKind) :
    appendedFor s (c.lower by_) kind = appendedFor s c kind := by
  simp only [appendedFor, present?_lower, Option.map_eq_none_iff,
    (c.looksLike_lower by_).methodText]

theorem insertedFor_lower (s : Surroundings) (kind : MemberKind) :
    insertedFor s (c.lower by_) kind = insertedFor s c kind := by
  simp only [insertedFor, present?_lower, Option.map_eq_none_iff, constructorText_lower]

theorem isValid_lower : (c.lower by_).isValid = c.isValid := by
  have fields : (c.lower by_).fields.isEmpty = c.fields.isEmpty := List.isEmpty_map
  have closed : (c.lower by_).lastLine.isNone = c.lastLine.isNone := Option.isNone_map
  rw [isValid, isValid, issue?, issue?, fields, closed, fieldNames_lower]

end ClassDecl

/-! ## The draft -/

namespace Draft

variable (by_ : Nat) (d : Draft)

theorem setSuperclass_lower (parent : Text) :
    (d.lower by_).setSuperclass parent = (d.setSuperclass parent).lower by_ := by
  by_cases same : d.decl.header.superclass = some parent <;>
    simp [setSuperclass, lower, ClassDecl.lower, same]

theorem addMixin_lower (mixin : Text) :
    (d.lower by_).addMixin mixin = (d.addMixin mixin).lower by_ := by
  by_cases same : mixin ∈ d.decl.header.mixins <;> simp [addMixin, lower, ClassDecl.lower, same]

theorem headerFor_lower (kinds : List MemberKind) :
    headerFor (d.lower by_) kinds = (headerFor d kinds).lower by_ := by
  rw [headerFor, headerFor]
  split
  · simp only [useEquatable, show (d.lower by_).decl.header = d.decl.header from rfl]
    split
    · rfl
    · cases d.decl.header.superclass with
      | none => exact d.setSuperclass_lower by_ _
      | some parent => exact d.addMixin_lower by_ _
  · rfl

theorem draftFor_lower (s : Surroundings) (selector : Option MemberKind) (c : ClassDecl) :
    draftFor s selector (c.lower by_) = (draftFor s selector c).lower by_ := by
  have down : headerFor { decl := c.lower by_ } (kindsFor s.style c.header selector) =
      (headerFor { decl := c } (kindsFor s.style c.header selector)).lower by_ :=
        headerFor_lower by_ { decl := c } _
  have pending := (headerFor_pending { decl := c } (kindsFor s.style c.header selector)).2.2
  have inserted : insertedFor s (c.lower by_) = insertedFor s c :=
    funext (c.insertedFor_lower by_ s)
  have appended : appendedFor s (c.lower by_) = appendedFor s c :=
    funext (c.appendedFor_lower by_ s)
  simp only [draftFor, show (c.lower by_).header = c.header from rfl, down, extend, lower, pending,
    inserted, appended, ClassDecl.replacementFor?_lower, List.map_nil, List.nil_append,
    List.map_filterMap]

theorem replacementAt?_lower (lineNo : Nat) :
    (d.lower by_).replacementAt? (lineNo + by_) = (d.replacementAt? lineNo).map (·.lower by_) := by
  rw [replacementAt?, replacementAt?, lower, List.find?_map]
  congr 2
  funext r
  simp [Replacement.lower, Span.lower, Span.covers]

theorem lineTexts_lower (written : List Text) (lineNo : Nat) (isLast : Bool) (line : Text) :
    (d.lower by_).lineTexts written
    (lineNo + by_) isLast line = d.lineTexts written lineNo isLast line := by
  rw [lineTexts, lineTexts, replacementAt?_lower]
  cases d.replacementAt? lineNo <;> rfl

theorem insertedAfter_lower (lineNo : Nat) :
    (d.lower by_).insertedAfter (lineNo + by_) = d.insertedAfter lineNo := by
  have last : ((d.lower by_).decl.lastFieldLine? == some (lineNo + by_)) =
      (d.decl.lastFieldLine? == some lineNo) := by
    show ((d.decl.fields.map (·.lower by_)).getLast?.map (·.line) == some (lineNo + by_)) =
      (d.decl.fields.getLast?.map (·.line) == some lineNo)
    rw [List.getLast?_map]
    cases d.decl.fields.getLast? with
    | none => rfl
    | some field => simp [Field.lower]
  rw [insertedAfter, insertedAfter, last]
  rfl

theorem bodyTexts_lower (written : List Text) (lineNo : Nat) (body : List Text) :
    (d.lower by_).bodyTexts written (lineNo + by_) body = d.bodyTexts written lineNo body := by
  induction body generalizing written lineNo with
  | nil => rw [bodyTexts, bodyTexts]
  | cons line rest ih =>
      rw [bodyTexts, bodyTexts, lineTexts_lower, insertedAfter_lower]
      dsimp only
      rw [show lineNo + by_ + 1 = lineNo + 1 + by_ by omega, ih]

theorem render_lower : (d.lower by_).render = d.render := by
  rw [render, render]
  simp only [show (d.lower by_).decl.lines = d.decl.lines from rfl]
  cases d.decl.lines with
  | nil => rfl
  | cons header body =>
      dsimp only
      rw [show (d.lower by_).decl.firstLine = d.decl.firstLine + by_ from rfl, insertedAfter_lower,
        show d.decl.firstLine + by_ + 1 = d.decl.firstLine + 1 + by_ by omega, bodyTexts_lower]
      rfl

theorem hasChanges_lower : (d.lower by_).hasChanges = d.hasChanges := by
  have none : (d.lower by_).replacements.isEmpty = d.replacements.isEmpty := List.isEmpty_map
  rw [hasChanges, hasChanges, none]
  rfl

theorem edit?_lower : (d.lower by_).edit? = d.edit?.map (·.lower by_) := by
  simp only [edit?, show (d.lower by_).decl.lastLine = d.decl.lastLine.map (· + by_) from rfl]
  cases d.decl.lastLine with
  | none => rfl
  | some last =>
      dsimp only [Option.map_some]
      rw [hasChanges_lower, show (d.lower by_).decl = d.decl.lower by_ from rfl,
        ClassDecl.isValid_lower, render_lower]
      split
      · simp only [Option.map_some, LineEdit.lower, ClassDecl.lower, Int.natCast_add,
          Option.some.injEq, LineEdit.mk.injEq, and_true]
        omega
      · rfl

end Draft

end Dart

end ValueClass
