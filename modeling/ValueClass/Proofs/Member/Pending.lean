import Mathlib.Data.List.Basic
import Mathlib.Tactic.Common
import ValueClass.Proofs.Member.Look

/-! # What writing leaves pending

Each member adds to a draft what the class itself calls for: a text at its end,
a replacement, or a constructor behind the fields. A member that changes the
header changes nothing that the others look at, so what is pending for a class
can be read off the class and the members written for it.
-/

namespace ValueClass.Dart

/-! ## What members look at -/

/-- Two classes that members are written for alike: they differ at most in the
    clauses of their headers. -/
structure ClassDecl.Alike (a b : ClassDecl) : Prop where
  body : a = { b with header := a.header }
  headerName : a.header.name = b.header.name
  generics : a.header.generics = b.header.generics
  isWidget : a.header.isWidget = b.header.isWidget

namespace ClassDecl.Alike

variable {a b : ClassDecl}

theorem refl (c : ClassDecl) : c.Alike c :=
  ⟨rfl, rfl, rfl, rfl⟩

theorem trans {a b c : ClassDecl} (first : a.Alike b) (second : b.Alike c) : a.Alike c := by
  refine ⟨?_, first.headerName.trans second.headerName, first.generics.trans second.generics,
    first.isWidget.trans second.isWidget⟩
  rw [first.body, second.body]

theorem fields (h : a.Alike b) : a.fields = b.fields := by
  rw [h.body]

theorem ctor (h : a.Alike b) : a.ctor = b.ctor := by
  rw [h.body]

theorem lines (h : a.Alike b) : a.lines = b.lines := by
  rw [h.body]

theorem firstLine (h : a.Alike b) : a.firstLine = b.firstLine := by
  rw [h.body]

theorem name (h : a.Alike b) : a.name = b.name := by
  rw [ClassDecl.name, ClassDecl.name, h.headerName]

theorem type (h : a.Alike b) : a.type = b.type := by
  simp only [ClassDecl.type, Header.type, Header.nameText, h.headerName, h.generics]

theorem fieldNames (h : a.Alike b) : a.fieldNames = b.fieldNames := by
  rw [ClassDecl.fieldNames, ClassDecl.fieldNames, h.fields]

theorem hasNamedConstructor (h : a.Alike b) : a.hasNamedConstructor = b.hasNamedConstructor := by
  rw [ClassDecl.hasNamedConstructor, ClassDecl.hasNamedConstructor, h.ctor, h.name]

theorem namedFields (h : a.Alike b) : a.namedFields = b.namedFields := by
  rw [ClassDecl.namedFields, ClassDecl.namedFields, h.ctor, h.fieldNames, h.hasNamedConstructor,
    h.name]

theorem find? (h : a.Alike b) (finder : Text) : a.find? finder = b.find? finder := by
  rw [ClassDecl.find?, ClassDecl.find?, h.lines, h.firstLine]

theorem looksLike (h : a.Alike b) : a.LooksLike b :=
  ⟨h.name, h.type, congrArg (·.map Field.unplaced) h.fields, h.namedFields⟩

theorem plan (h : a.Alike b) (style : Style) :
    ConstructorPlan.ofClass style a = ConstructorPlan.ofClass style b := by
  have kept : KeptParams.ofClass a = KeptParams.ofClass b := by
    simp only [KeptParams.ofClass, KeptParams.ofConstructor, h.ctor, h.isWidget, h.fieldNames,
      h.name]
  simp only [ConstructorPlan.ofClass, kept, h.fields]

end ClassDecl.Alike

theorem Draft.alike_useEquatable (d : Draft) : d.useEquatable.decl.Alike d.decl := by
  simp only [useEquatable]
  split
  · exact .refl _
  · rename_i other
    split
    · rename_i none
      have notWidget : d.decl.header.isWidget = false := by simp [Header.isWidget, none]
      simp only [setSuperclass]
      split
      · exact .refl _
      · exact ⟨rfl, rfl, rfl, notWidget.symm ▸ rfl⟩
    · simp only [addMixin]
      split
      · exact .refl _
      · exact ⟨rfl, rfl, rfl, rfl⟩

/-! ## What one member adds -/

/-- The text of the constructor of a class, as it stands in the class. -/
def constructorText (s : Surroundings) (c : ClassDecl) : Text :=
  Text.indentBlock s.indent ((ConstructorPlan.ofClass s.style c).text s.indent c.name)

/-- The member of a kind that stands in a class. -/
def present? (c : ClassDecl) : MemberKind → Option Span
  | .constructor =>
    match c.ctor with
    | some { text, firstLine, lastLine := some last } => some { first := firstLine, last, text }
    | _ => none
  | kind => c.find? (Method.finder c kind)

/-- The text that takes the place of a member. -/
def memberText (s : Surroundings) (c : ClassDecl) : MemberKind → Text
  | .constructor => constructorText s c
  | kind => Text.indentBlock s.indent (Text.replaceAll Method.overrideMark [] (methodText s c kind))

theorem present?_of_method (c : ClassDecl) {kind : MemberKind} (method : kind ≠ .constructor) :
    present? c kind = c.find? (Method.finder c kind) := by
  cases kind <;> first | exact absurd rfl method | rfl

theorem memberText_of_method (s : Surroundings) (c : ClassDecl) {kind : MemberKind}
    (method : kind ≠ .constructor) :
    memberText s c kind = Text.indentBlock s.indent
      (Text.replaceAll Method.overrideMark [] (methodText s c kind)) := by
  cases kind <;> first | exact absurd rfl method | rfl

/-- The replacement of a member that stands there and differs. -/
def replacementFor? (s : Surroundings) (c : ClassDecl) (kind : MemberKind) : Option Replacement :=
  match present? c kind with
  | some span =>
    if Text.sameInk span.text (memberText s c kind) then none
    else some { name := kind.label, span, text := memberText s c kind }
  | none => none

def appendedFor (s : Surroundings) (c : ClassDecl) (kind : MemberKind) : Text :=
  if kind ≠ .constructor ∧ present? c kind = none then
    "\n" ++ Text.indentBlock s.indent (methodText s c kind)
  else []

/-- What a member puts behind the fields of a class. -/
def insertedFor (s : Surroundings) (c : ClassDecl) (kind : MemberKind) : Text :=
  if kind = .constructor ∧ present? c kind = none then "\n" ++ constructorText s c else []

namespace ClassDecl.Alike

variable {a b : ClassDecl}

theorem constructorText (h : a.Alike b) (s : Surroundings) :
    constructorText s a = constructorText s b := by
  rw [Dart.constructorText, Dart.constructorText, h.plan, h.name]

theorem memberText (h : a.Alike b) (s : Surroundings) (kind : MemberKind) :
    memberText s a kind = memberText s b kind := by
  simp only [Dart.memberText, h.constructorText, h.looksLike.methodText]

theorem present? (h : a.Alike b) (kind : MemberKind) : present? a kind = present? b kind := by
  simp only [Dart.present?, h.ctor, h.find?, h.looksLike.finder]

theorem replacementFor? (h : a.Alike b) (s : Surroundings) (kind : MemberKind) :
    replacementFor? s a kind = replacementFor? s b kind := by
  simp only [Dart.replacementFor?, h.present?, h.memberText]

theorem appendedFor (h : a.Alike b) (s : Surroundings) (kind : MemberKind) :
    appendedFor s a kind = appendedFor s b kind := by
  rw [Dart.appendedFor, Dart.appendedFor, h.present?, h.looksLike.methodText]

theorem insertedFor (h : a.Alike b) (s : Surroundings) (kind : MemberKind) :
    insertedFor s a kind = insertedFor s b kind := by
  rw [Dart.insertedFor, Dart.insertedFor, h.present?, h.constructorText]

theorem librariesFor (h : a.Alike b) (s : Surroundings) (kind : MemberKind) :
    librariesFor s a kind = librariesFor s b kind := by
  cases kind <;> simp only [Dart.librariesFor, h.plan, h.fields]

end ClassDecl.Alike

namespace Draft

@[simp] theorem replace_decl (d : Draft) (r : Replacement) : (d.replace r).decl = d.decl := by
  simp only [replace]
  split <;> rfl

@[simp] theorem putMethod_decl (d : Draft) (indent : Text) (kind : MemberKind) (method : Text) :
    (d.putMethod indent kind method).decl = d.decl := by
  simp only [putMethod]
  split <;> simp

@[simp] theorem putConstructor_decl (d : Draft) (indent text : Text) :
    (d.putConstructor indent text).decl = d.decl := by
  simp only [putConstructor]
  split <;> simp

theorem replace_eq (d : Draft) (r : Replacement) :
    d.replace r = { d with
      replacements := d.replacements ++
        (if Text.sameInk r.span.text r.text then none
          else some r : Option Replacement).toList } := by
  rw [replace]
  split <;> simp

theorem putMethod_eq (d : Draft) (s : Surroundings) {kind : MemberKind}
    (method : kind ≠ .constructor) :
    d.putMethod s.indent kind (methodText s d.decl kind) = { d with
      inserted := d.inserted ++ insertedFor s d.decl kind
      appended := d.appended ++ appendedFor s d.decl kind
      replacements := d.replacements ++ (replacementFor? s d.decl kind).toList } := by
  have here := present?_of_method d.decl method
  have text := memberText_of_method s d.decl method
  cases found : d.decl.find? (Method.finder d.decl kind) with
  | none => simp [putMethod, insertedFor, appendedFor, replacementFor?, here, found, method]
  | some span =>
      simp [putMethod, insertedFor, appendedFor, replacementFor?, here, found, replace_eq, text]

theorem putConstructor_eq (d : Draft) (s : Surroundings) (fresh : d.inserted = []) :
    d.putConstructor s.indent ((ConstructorPlan.ofClass s.style d.decl).text s.indent d.decl.name) =
      { d with
        inserted := d.inserted ++ insertedFor s d.decl .constructor
        appended := d.appended ++ appendedFor s d.decl .constructor
        replacements := d.replacements ++ (replacementFor? s d.decl .constructor).toList } := by
  have text : memberText s d.decl .constructor = Text.indentBlock s.indent
      ((ConstructorPlan.ofClass s.style d.decl).text s.indent d.decl.name) := rfl
  rw [putConstructor]
  cases found : d.decl.ctor with
  | none => simp [present?, insertedFor, appendedFor, replacementFor?, found,
      constructorText, fresh]
  | some ctor =>
      obtain ⟨current, firstLine, lastLine⟩ := ctor
      cases lastLine with
      | none => simp [present?, insertedFor, appendedFor, replacementFor?, found,
          constructorText, fresh]
      | some last =>
          simp [present?, insertedFor, appendedFor, replacementFor?, found, replace_eq, text]

def extend (d : Draft) (inserted appended : Text) (replacements : List Replacement) : Draft :=
  { d with
    inserted := d.inserted ++ inserted
    appended := d.appended ++ appended
    replacements := d.replacements ++ replacements }

section Extend

variable (d : Draft) (inserted appended : Text) (replacements : List Replacement)

theorem setSuperclass_extend (parent : Text) :
    (d.extend inserted appended replacements).setSuperclass parent =
      (d.setSuperclass parent).extend inserted appended replacements := by
  by_cases same : d.decl.header.superclass = some parent <;> simp [setSuperclass, extend, same]

theorem addMixin_extend (mixin : Text) :
    (d.extend inserted appended replacements).addMixin mixin =
      (d.addMixin mixin).extend inserted appended replacements := by
  by_cases same : mixin ∈ d.decl.header.mixins <;> simp [addMixin, extend, same]

theorem useEquatable_extend :
    (d.extend inserted appended replacements).useEquatable =
      d.useEquatable.extend inserted appended replacements := by
  by_cases uses : d.decl.header.usesEquatable
  · simp [useEquatable, extend, uses]
  · have uses' : ¬ (d.extend inserted appended replacements).decl.header.usesEquatable := uses
    rw [useEquatable, useEquatable, if_neg uses, if_neg uses']
    cases parent : d.decl.header.superclass with
    | none =>
        rw [show (d.extend inserted appended replacements).decl.header.superclass = none from
          parent]
        exact d.setSuperclass_extend inserted appended replacements _
    | some name =>
        rw [show (d.extend inserted appended replacements).decl.header.superclass = some name from
          parent]
        exact d.addMixin_extend inserted appended replacements _

end Extend

theorem extend_extend (d : Draft) (inserted appended inserted' appended' : Text)
    (replacements replacements' : List Replacement) :
    (d.extend inserted appended replacements).extend inserted' appended' replacements' =
      d.extend (inserted ++ inserted') (appended ++ appended') (replacements ++ replacements') := by
  simp [extend]

end Draft

/-- A draft once its members have changed its header: the equatable package is
    mixed in by the member that lists what it compares. -/
def headerFor (d : Draft) (kinds : List MemberKind) : Draft :=
  if .props ∈ kinds then d.useEquatable else d

theorem alike_headerFor (d : Draft) (kinds : List MemberKind) :
    (headerFor d kinds).decl.Alike d.decl := by
  rw [headerFor]
  split
  · exact d.alike_useEquatable
  · exact .refl _

theorem alike_writeMember (s : Surroundings) (d : Draft) (kind : MemberKind) :
    (writeMember s d kind).decl.Alike d.decl := by
  cases kind
  case props => simpa [writeMember] using d.alike_useEquatable
  all_goals simpa [writeMember] using ClassDecl.Alike.refl d.decl

/-- Writing a member adds to a draft what the class calls for. -/
theorem writeMember_eq (s : Surroundings) (d : Draft) (kind : MemberKind)
    (fresh : kind = .constructor → d.inserted = []) :
    writeMember s d kind = (headerFor d [kind]).extend (insertedFor s d.decl kind)
      (appendedFor s d.decl kind) (replacementFor? s d.decl kind).toList := by
  cases kind with
  | constructor => exact d.putConstructor_eq s (fresh rfl)
  | props =>
      have alike := d.alike_useEquatable
      show d.useEquatable.putMethod s.indent .props (methodText s d.decl .props) =
        d.useEquatable.extend _ _ _
      rw [← alike.looksLike.methodText, Draft.putMethod_eq _ s (by simp), alike.insertedFor,
        alike.appendedFor, alike.replacementFor?, Draft.extend]
  | copyWith => exact d.putMethod_eq s (by simp)
  | toMap => exact d.putMethod_eq s (by simp)
  | fromMap => exact d.putMethod_eq s (by simp)
  | toJson => exact d.putMethod_eq s (by simp)
  | fromJson => exact d.putMethod_eq s (by simp)
  | toString => exact d.putMethod_eq s (by simp)
  | equality => exact d.putMethod_eq s (by simp)
  | hashCode => exact d.putMethod_eq s (by simp)

theorem headerFor_extend (d : Draft) (inserted appended : Text) (replacements : List Replacement)
    (kinds : List MemberKind) :
    headerFor (d.extend inserted appended replacements) kinds =
      (headerFor d kinds).extend inserted appended replacements := by
  simp only [headerFor]
  split
  · exact d.useEquatable_extend inserted appended replacements
  · rfl

theorem headerFor_cons (d : Draft) {kind : MemberKind} {rest : List MemberKind}
    (once : kind ∉ rest) :
    headerFor (headerFor d [kind]) rest = headerFor d (kind :: rest) := by
  by_cases h : kind = .props
  · subst h
    simp [headerFor, once]
  · simp [headerFor, Ne.symm h]

theorem insertedFor_of_ne (s : Surroundings) (c : ClassDecl) {kind : MemberKind}
    (h : kind ≠ .constructor) : insertedFor s c kind = [] := by
  simp [insertedFor, h]

theorem headerFor_pending (d : Draft) (kinds : List MemberKind) :
    (headerFor d kinds).inserted = d.inserted ∧ (headerFor d kinds).appended = d.appended ∧
      (headerFor d kinds).replacements = d.replacements := by
  simp only [headerFor, Draft.useEquatable, Draft.setSuperclass, Draft.addMixin]
  split
  · split
    · exact ⟨rfl, rfl, rfl⟩
    · split <;> split <;> exact ⟨rfl, rfl, rfl⟩
  · exact ⟨rfl, rfl, rfl⟩

/-- What is pending for a class once its members are written. -/
theorem foldl_writeMember (s : Surroundings) {kinds : List MemberKind} (once : kinds.Nodup)
    {d : Draft} {c : ClassDecl} (alike : d.decl.Alike c)
    (fresh : .constructor ∈ kinds → d.inserted = []) :
    kinds.foldl (writeMember s) d = (headerFor d kinds).extend (kinds.flatMap (insertedFor s c))
      (kinds.flatMap (appendedFor s c)) (kinds.filterMap (replacementFor? s c)) := by
  induction kinds generalizing d with
  | nil => simp [headerFor, Draft.extend]
  | cons kind rest ih =>
      obtain ⟨first, once⟩ := List.nodup_cons.mp once
      have step := writeMember_eq s d kind fun h => fresh (h ▸ List.mem_cons_self)
      rw [alike.insertedFor, alike.appendedFor, alike.replacementFor?] at step
      rw [List.foldl_cons, step, ih once, headerFor_extend, headerFor_cons d first,
        Draft.extend_extend]
      · rw [List.flatMap_cons, List.flatMap_cons, ← List.singleton_append, List.filterMap_append]
        congr 1
      · exact (alike_headerFor d [kind]).trans alike
      · intro later
        have other : kind ≠ .constructor := fun h => first (h ▸ later)
        show (headerFor d [kind]).inserted ++ insertedFor s c kind = []
        rw [(headerFor_pending d [kind]).1, insertedFor_of_ne s c other,
          fresh (List.mem_cons_of_mem _ later)]
        rfl

theorem nodup_kindsFor (style : Style) (header : Header) (selector : Option MemberKind) :
    (kindsFor style header selector).Nodup := by
  have all : MemberKind.all.Nodup := by decide
  have allowed : (allowedKinds header).Nodup := by
    simp only [allowedKinds]
    split <;> split
    · exact List.Pairwise.filter _ (List.pairwise_singleton _ _)
    · split
      · exact (all.filter _).filter _
      · exact all.filter _
    · exact List.pairwise_singleton _ _
    · split
      · exact all.filter _
      · exact all
  cases selector with
  | some kind =>
      simp only [kindsFor]
      split
      · exact List.pairwise_singleton _ _
      · exact List.nodup_nil
  | none => exact allowed.filter _

theorem replacementFor?_eq_some {s : Surroundings} {c : ClassDecl} {kind : MemberKind}
    {r : Replacement} (h : replacementFor? s c kind = some r) :
    present? c kind = some r.span ∧ r.name = kind.label ∧ r.text = memberText s c kind := by
  simp only [replacementFor?] at h
  split at h
  · rename_i span found
    split at h
    · simp at h
    · cases h
      exact ⟨found, rfl, rfl⟩
  · simp at h

theorem flatMap_insertedFor (s : Surroundings) (c : ClassDecl) {kinds : List MemberKind}
    (once : kinds.Nodup) :
    kinds.flatMap (insertedFor s c) = if .constructor ∈ kinds then insertedFor s c .constructor
      else [] := by
  induction kinds with
  | nil => rfl
  | cons kind rest ih =>
      obtain ⟨first, once⟩ := List.nodup_cons.mp once
      rw [List.flatMap_cons, ih once]
      by_cases h : kind = .constructor
      · subst h
        simp [first]
      · simp [insertedFor_of_ne s c h, Ne.symm h]

/-- The libraries that the members of a class call. -/
def needsFor (s : Surroundings) (selector : Option MemberKind) (c : ClassDecl) : List LibraryNeed :=
  (kindsFor s.style c.header selector).flatMap (librariesFor s c)

/-- What is pending for a class that nothing was pending for. -/
def draftFor (s : Surroundings) (selector : Option MemberKind) (c : ClassDecl) : Draft :=
  let kinds := kindsFor s.style c.header selector
  (headerFor { decl := c } kinds).extend (kinds.flatMap (insertedFor s c))
    (kinds.flatMap (appendedFor s c)) (kinds.filterMap (replacementFor? s c))

theorem draftFor_pending (s : Surroundings) (selector : Option MemberKind) (c : ClassDecl) :
    let kinds := kindsFor s.style c.header selector
    (draftFor s selector c).inserted = kinds.flatMap (insertedFor s c) ∧
      (draftFor s selector c).appended = kinds.flatMap (appendedFor s c) ∧
      (draftFor s selector c).replacements = kinds.filterMap (replacementFor? s c) := by
  intro kinds
  obtain ⟨inserted, appended, replacements⟩ := headerFor_pending { decl := c } kinds
  refine ⟨?_, ?_, ?_⟩
  · show (headerFor { decl := c } kinds).inserted ++ _ = _
    rw [inserted]
    rfl
  · show (headerFor { decl := c } kinds).appended ++ _ = _
    rw [appended]
    rfl
  · show (headerFor { decl := c } kinds).replacements ++ _ = _
    rw [replacements]
    rfl

theorem requireAll_append (imports : Imports) (needs more : List LibraryNeed) :
    imports.requireAll (needs ++ more) = (imports.requireAll needs).requireAll more := by
  simp [Imports.requireAll, List.foldl_append]

theorem foldl_requireAll_writeMember (s : Surroundings) {c : ClassDecl} (kinds : List MemberKind)
    (imports : Imports) {d : Draft} (alike : d.decl.Alike c) :
    kinds.foldl (fun (imports, d) kind =>
      (imports.requireAll (librariesFor s d.decl kind), writeMember s d kind)) (imports, d) =
    (imports.requireAll (kinds.flatMap (librariesFor s c)), kinds.foldl (writeMember s) d) := by
  induction kinds generalizing imports d with
  | nil => rfl
  | cons kind rest ih =>
      rw [List.foldl_cons, ih, alike.librariesFor, List.flatMap_cons, requireAll_append,
        List.foldl_cons]
      exact (alike_writeMember s d kind).trans alike

theorem writeClass_eq (s : Surroundings) (selector : Option MemberKind) (imports : Imports)
    (c : ClassDecl) :
    writeClass s selector imports { decl := c } =
      (imports.requireAll (needsFor s selector c), draftFor s selector c) := by
  rw [writeClass, foldl_requireAll_writeMember s _ _ (.refl c),
    foldl_writeMember s (nodup_kindsFor s.style c.header selector) (.refl c) fun _ => rfl]
  rfl

/-- A class with what is pending for it; nothing is for a class that is left out. -/
def writtenDraft (s : Surroundings) (selector : Option MemberKind) (c : ClassDecl) : Draft :=
  if c.isValid then draftFor s selector c else { decl := c }

/-- The libraries that the members of some classes call. -/
def neededBy (s : Surroundings) (selector : Option MemberKind) (classes : List ClassDecl) :
    List LibraryNeed :=
  (classes.filter (·.isValid)).flatMap (needsFor s selector)

/-- Writing changes each class by itself, and what is imported before decides nothing but
    what is imported behind. -/
theorem writeClasses_eq_map (s : Surroundings) (selector : Option MemberKind) (imports : Imports)
    (classes : List ClassDecl) :
    writeClasses s selector imports (classes.map fun decl => { decl }) =
      (imports.requireAll (neededBy s selector classes),
        classes.map (writtenDraft s selector)) := by
  induction classes generalizing imports with
  | nil => rfl
  | cons c rest ih =>
      rw [List.map_cons, writeClasses]
      by_cases valid : c.isValid
      · have needs : neededBy s selector (c :: rest) = needsFor s selector c ++
            neededBy s selector rest := by
          rw [neededBy, List.filter_cons_of_pos valid, List.flatMap_cons, neededBy]
        rw [if_pos valid, writeClass_eq]
        dsimp only
        rw [ih, needs, requireAll_append, List.map_cons, writtenDraft, if_pos valid]
      · have needs : neededBy s selector (c :: rest) = neededBy s selector rest := by
          rw [neededBy, List.filter_cons_of_neg valid, neededBy]
        rw [if_neg valid]
        dsimp only
        rw [ih, needs, List.map_cons, writtenDraft, if_neg valid]

theorem writeClasses_eq (s : Surroundings) (selector : Option MemberKind) (imports : Imports)
    {classes : List ClassDecl} (valid : ∀ c ∈ classes, c.isValid) :
    writeClasses s selector imports (classes.map fun decl => { decl }) =
      (imports.requireAll (classes.flatMap (needsFor s selector)),
        classes.map (draftFor s selector)) := by
  have written : classes.map (writtenDraft s selector) = classes.map (draftFor s selector) :=
    List.map_congr_left fun c member => if_pos (valid c member)
  rw [writeClasses_eq_map, neededBy, List.filter_eq_self.mpr valid, written]

theorem alike_draftFor (s : Surroundings) (selector : Option MemberKind) (c : ClassDecl) :
    (draftFor s selector c).decl.Alike c :=
  alike_headerFor { decl := c } _

theorem alike_writtenDraft (s : Surroundings) (selector : Option MemberKind) (c : ClassDecl) :
    (writtenDraft s selector c).decl.Alike c := by
  rw [writtenDraft]
  split
  · exact alike_draftFor s selector c
  · exact .refl c

end ValueClass.Dart
