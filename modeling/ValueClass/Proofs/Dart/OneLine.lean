import ValueClass.Proofs.Dart.HeaderKept
import ValueClass.Proofs.Dart.Weight

/-! # What is read from one line

The header of a class and each of its fields are read from one line, so none of their
parts has a line feed, and a header that is written from such parts is one line again.
-/

namespace ValueClass.Dart

/-! ## Headers -/

namespace Header

structure OnOneLine (h : Header) : Prop where
  front : '\n' ∉ h.front
  name : '\n' ∉ h.nameText
  generics : '\n' ∉ h.generics
  superclass : ∀ parent ∈ h.superclass, '\n' ∉ parent
  mixins : ∀ mixin ∈ h.mixins, '\n' ∉ mixin
  interfaces : ∀ interface ∈ h.interfaces, '\n' ∉ interface

theorem notMem_join {c : Char} {sep : Text} {pieces : List Text} (between : c ∉ sep)
    (each : ∀ p ∈ pieces, c ∉ p) :
    c ∉ Text.join sep pieces := by
  induction pieces with
  | nil => simp [Text.join]
  | cons piece rest ih =>
      cases rest with
      | nil => simpa [Text.join] using each
      | cons next others =>
          rw [Text.join_cons_cons, List.mem_append, List.mem_append, not_or, not_or]
          exact ⟨⟨each piece (by simp), between⟩, ih fun p member =>
            each p (List.mem_cons_of_mem _ member)⟩

theorem notMem_when {c : Char} {condition : Bool} {t : Text} (h : c ∉ t) :
    c ∉ Text.when condition t := by
  cases condition
  · simp [Text.when]
  · exact h

theorem OnOneLine.render {h : Header} (one : h.OnOneLine) {replaced : Text}
    (whole : '\n' ∉ replaced) :
    '\n' ∉ h.render replaced := by
  have indent : '\n' ∉ indentOf replaced :=
    fun feed => whole ((List.takeWhile_prefix _).subset feed)
  have parent : '\n' ∉ h.superclass.getD [] := by
    cases super : h.superclass with
    | none => simp
    | some p => exact one.superclass p super
  have lists : ∀ ts : List Text, (∀ t ∈ ts, '\n' ∉ t) → '\n' ∉ Text.join ", " ts :=
    fun ts => notMem_join (by decide)
  simp only [Header.render, List.mem_append, not_or]
  refine ⟨⟨⟨⟨⟨⟨⟨⟨indent, notMem_when ?_⟩, by decide⟩, one.name⟩, one.generics⟩, notMem_when ?_⟩,
    notMem_when ?_⟩,
    notMem_when ?_⟩, notMem_when (by decide)⟩
  · exact fun feed => (List.mem_append.mp feed).elim one.front (by decide)
  · exact fun feed => (List.mem_append.mp feed).elim (by decide) parent
  · exact fun feed => (List.mem_append.mp feed).elim (by decide) (lists _ one.mixins)
  · exact fun feed => (List.mem_append.mp feed).elim (by decide) (lists _ one.interfaces)

theorem OnOneLine.equatable {h : Header} (one : h.OnOneLine) : h.equatable.OnOneLine := by
  rw [Header.equatable]
  split
  · refine { one with superclass := ?_ }
    rintro parent same
    obtain rfl : "Equatable".toList = parent := Option.some.inj same
    decide
  · refine { one with mixins := ?_ }
    intro mixin member
    rcases List.mem_append.mp member with old | new
    · exact one.mixins mixin old
    · rw [List.mem_singleton.mp new]
      decide

theorem unbraced_subset (line : Text) : unbraced line ⊆ line := by
  rw [unbraced]
  split
  · exact fun c member =>
      Text.mem_of_mem_trim (List.dropLast_subset _ ((prefix_trimEnd _).subset member))
  · exact fun c => Text.mem_of_mem_trim

theorem onOneLine_parse {line : Text} (whole : '\n' ∉ line) : (parse line).OnOneLine := by
  obtain ⟨modifiers, declared, keyword⟩ : ∃ modifiers declared,
      splitKeyword (Text.tokens (unbraced line)) = (modifiers, declared) := ⟨_, _, rfl⟩
  have token : ∀ t ∈ Text.tokens (unbraced line), '\n' ∉ t := fun t member feed =>
    whole (unbraced_subset line (Text.subset_of_mem_tokens member feed))
  obtain ⟨before, behind⟩ := suffix_of_splitKeyword keyword
  obtain ⟨modified, abstract, -, unnamed⟩ := parse_cases line keyword
  have front : '\n' ∉ (parse line).front := by
    rw [Header.front, modified]
    split
    · decide
    · exact notMem_join (by decide) fun w member => token w (before member)
  cases split : splitName declared with
  | none =>
      have read := unnamed split
      generalize parse line = h at *
      subst read
      exact ⟨front, show '\n' ∉ "None".toList by decide, by simp, by simp, by simp, by simp⟩
  | some parts =>
      obtain ⟨name, generics, clauses⟩ := parts
      have read := parse_eq_of_tokens keyword split
      generalize parse line = h at *
      subst read
      have clause : ∀ wanted, '\n' ∉ Text.join " " (clauseTokens wanted none clauses) :=
        fun wanted =>
        notMem_join (by decide) fun t member =>
          token t (behind (subset_of_splitName split (clauseTokens_subset _ _ _ member)))
      have item : ∀ wanted, ∀ t ∈ Text.splitTopLevel ','
          (Text.join " " (clauseTokens wanted none clauses)), '\n' ∉ t := by
        intro wanted t member feed
        obtain ⟨piece, inside, rfl⟩ := List.mem_map.mp (List.mem_filter.mp member).1
        exact clause wanted (Text.subset_of_mem_splitAtDepth inside (Text.mem_of_mem_trim feed))
      have named : '\n' ∉ name ∧ '\n' ∉ generics := by
        rcases splitName_cases split with rfl | rfl
        · have first := token _ (behind (List.mem_cons_self))
          simpa [not_or] using first
        · exact ⟨token _ (behind (by simp)), token _ (behind (by simp))⟩
      refine ⟨front, named.1, named.2, ?_, item _, item _⟩
      intro parent given
      have same : Text.join " " (clauseTokens .extends none clauses) = parent := by
        cases parents : clauseTokens .extends none clauses with
        | nil =>
            rw [parents] at given
            cases given
        | cons first rest =>
            rw [parents] at given
            exact Option.some.inj given
      exact same ▸ clause _

end Header

theorem header_of_mem_scan {text : Text} {c : ClassDecl} (member : c ∈ scan text) :
    ∃ line body, c.lines = line :: body ∧ Header.isHeader line ∧ c.header = Header.parse line := by
  obtain ⟨seen, below, o, -, ⟨line, body, lines, opens, header⟩, reported⟩ :=
    mem_scanFrom (fun _ o => ∃ line body, o.decl.lines = line :: body ∧ Header.isHeader line ∧
        o.decl.header = Header.parse line)
      (fun _ line opens => ⟨line, [], rfl, opens, rfl⟩)
      (fun _ o previous line ⟨first, body, lines, opens, header⟩ _ =>
        ⟨first, body ++ [line], by simp [lines], opens, by rw [OpenClass.readLine_header, header]⟩)
          [] (by simp) member
  rcases reported with rfl | ⟨-, rfl⟩ <;> exact ⟨line, body, lines, opens, header⟩

/-- Neither does the type that a header declares. -/
theorem Header.OnOneLine.type {h : Header} (one : h.OnOneLine) : '\n' ∉ h.type.getD [] := by
  have name : '\n' ∉ h.name.getD [] := by
    have shown := one.name
    rw [Header.nameText] at shown
    cases name : h.name with
    | none => simp
    | some name => simpa [name] using shown
  rw [Header.type]
  split
  · exact name
  · have parameter : ∀ p ∈ Text.splitTopLevel ',' ((h.generics.trim.drop 1).dropLast),
        '\n' ∉ p := by
      intro p member feed
      obtain ⟨piece, inside, rfl⟩ := List.mem_map.mp (List.mem_filter.mp member).1
      have whole := Text.subset_of_mem_splitAtDepth inside (Text.mem_of_mem_trim feed)
      exact one.generics
        (Text.mem_of_mem_trim (List.mem_of_mem_drop (List.dropLast_subset _ whole)))
    have bounded : ∀ p, '\n' ∉ p → '\n' ∉ ((Text.cut? " extends " p).map (·.1)).getD p := by
      intro p whole
      cases cut : Text.cut? " extends " p with
      | none => exact whole
      | some parts =>
          rw [Header.eq_append_of_cut? cut, List.mem_append, not_or] at whole
          exact whole.1
    simp only [Option.getD_some, List.mem_append, not_or]
    refine ⟨⟨⟨one.name, by decide⟩, notMem_join (by decide) ?_⟩, by decide⟩
    intro t member
    obtain ⟨p, inside, rfl⟩ := List.mem_map.mp member
    exact fun feed => bounded p (parameter p inside) (Text.mem_of_mem_trim feed)

theorem notMem_type {text : Text} {c : ClassDecl} (member : c ∈ scan text) : '\n' ∉ c.type := by
  obtain ⟨line, body, lines, -, header⟩ := header_of_mem_scan member
  obtain ⟨above, below, split, -⟩ := (standsIn_of_mem_scan member).place
  rw [ClassDecl.type, header]
  exact (Header.onOneLine_parse
    (Text.notMem_of_mem_lines (t := text) (by rw [split, lines]; simp))).type

/-! ## Fields -/

namespace Line

theorem commentRemainder?_subset {t remainder : Text}
    (found : commentRemainder? t = some remainder) : remainder ⊆ t := by
  have start : Text.trimStart t ⊆ t := (List.dropWhile_sublist _).subset
  rw [commentRemainder?] at found
  split at found
  · rename_i rest starts
    rw [starts] at start
    simp only [Option.ite_none_right_eq_some, Option.some.injEq] at found
    rw [← found.2]
    exact fun c member => start
      (List.mem_cons_of_mem _ (List.mem_cons_of_mem _ ((List.dropWhile_sublist _).subset member)))
  · cases found

theorem dropComment_subset (t : Text) : dropComment t ⊆ t := by
  induction t with
  | nil => exact fun _ member => member
  | cons c rest ih =>
      rw [dropComment_cons]
      split
      · rename_i remainder found
        exact commentRemainder?_subset found
      · exact List.cons_subset_cons _ ih

theorem exists_token_of_splitDeclaration {tokens types : List Text} {name : Text}
    (split : splitDeclaration tokens = some (types, name)) : ∃ token ∈ tokens, name ⊆ token := by
  induction tokens generalizing types with
  | nil => cases split
  | cons token rest ih =>
      rw [splitDeclaration] at split
      split at split
      · rename_i cut
        cases split
        refine ⟨token, by simp, ?_⟩
        rw [Header.eq_append_of_cut? cut]
        exact List.subset_append_left _ _
      · split at split
        · cases split
          exact ⟨token, by simp, List.dropLast_subset _⟩
        · split at split
          · cases split
            exact ⟨_, List.mem_cons_self, List.Subset.refl _⟩
          · obtain ⟨⟨types, found⟩, below, same⟩ := Option.map_eq_some_iff.mp split
            cases same
            obtain ⟨token, member, inside⟩ := ih below
            exact ⟨token, List.mem_cons_of_mem _ member, inside⟩

theorem name_field? {line : Text} {lineNo : Nat} {previous : Text} {f : Field}
    (read : field? line lineNo previous = some f) : f.name ≠ [] ∧ f.name ⊆ line := by
  simp only [field?] at read
  split at read
  · rename_i type types c name split
    cases read
    obtain ⟨token, member, inside⟩ := exists_token_of_splitDeclaration split
    refine ⟨by simp, fun d here => ?_⟩
    have code : d ∈ withoutComment line :=
      Text.mem_of_mem_trim (Text.subset_of_mem_tokens (List.mem_filter.mp member).1 (inside here))
    rw [withoutComment] at code
    split at code
    · exact code
    · exact dropComment_subset line code
  · cases read

end Line

/-- The fields that a line adds are read from it. -/
theorem OpenClass.fields_readLine (o : OpenClass) (lineNo : Nat) (previous line : Text) {f : Field}
    (member : f ∈ (o.readLine lineNo previous line).decl.fields) :
    f ∈ o.decl.fields ∨ Line.field? line lineNo previous = some f := by
  have started : ((o.count line).startConstructor o.braces lineNo line).decl.fields =
      o.decl.fields := by
    simp only [OpenClass.startConstructor]
    split <;> rfl
  simp only [OpenClass.readLine] at member
  split at member
  · simp only [OpenClass.extendConstructor] at member
    split at member <;> exact .inl (started ▸ member)
  · simp only [OpenClass.addField] at member
    split at member
    · split at member
      · rename_i g read
        rcases List.mem_append.mp member with old | new
        · exact .inl (started ▸ old)
        · exact .inr (List.mem_singleton.mp new ▸ read)
      · exact .inl (started ▸ member)
    · exact .inl (started ▸ member)

theorem exists_field?_of_mem_scan {text : Text} {c : ClassDecl} (member : c ∈ scan text) :
    ∀ f ∈ c.fields, ∃ line ∈ text.lines,
      ∃ lineNo previous, Line.field? line lineNo previous = some f := by
  obtain ⟨seen, below, o, split, each, reported⟩ :=
    mem_scanFrom (fun read o => ∀ f ∈ o.decl.fields, ∃ line ∈ read,
        ∃ lineNo previous, Line.field? line lineNo previous = some f)
      (fun _ line _ => by simp [OpenClass.start, OpenClass.count])
      (fun _ o previous line each _ f inside => by
        rcases o.fields_readLine _ previous line inside with old | new
        · obtain ⟨l, read, from_⟩ := each f old
          exact ⟨l, List.mem_append_left _ read, from_⟩
        · exact ⟨line, by simp, _, previous, new⟩) [] (by simp) member
  have same : c.fields = o.decl.fields := by
    rcases reported with rfl | ⟨-, rfl⟩ <;> rfl
  rw [same]
  intro f inside
  obtain ⟨line, read, from_⟩ := each f inside
  rw [List.nil_append] at split
  exact ⟨line, by rw [split]; exact List.mem_append_left _ read, from_⟩

theorem name_ne_nil_of_mem_scan {text : Text} {c : ClassDecl} (member : c ∈ scan text) :
    ∀ f ∈ c.fields, f.name ≠ [] := by
  intro f field
  obtain ⟨line, -, lineNo, previous, read⟩ := exists_field?_of_mem_scan member f field
  exact (Line.name_field? read).1

theorem notMem_fieldName {text : Text} {c : ClassDecl} (member : c ∈ scan text) :
    ∀ name ∈ c.fieldNames, '\n' ∉ name := by
  intro name named feed
  obtain ⟨f, field, rfl⟩ := List.mem_map.mp named
  obtain ⟨line, inside, lineNo, previous, read⟩ := exists_field?_of_mem_scan member f field
  exact Text.notMem_of_mem_lines inside ((Line.name_field? read).2 feed)

end ValueClass.Dart
