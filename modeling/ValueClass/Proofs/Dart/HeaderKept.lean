import ValueClass.Proofs.Dart.HeaderLine
import ValueClass.Proofs.Dart.HeaderSections
import ValueClass.Proofs.Member.CtorText

/-! # What a new header keeps

A header that gets a clause is written from the parts that were read. So what the line
held beside them goes: the new line is the old one with the clause put in just when
behind the name stand the clauses, each at most once and in their order, and at the
end nothing but the brace.
-/

namespace ValueClass.Dart.Header

/-! ## The ink of a header -/

theorem ink_when (condition : Bool) (t : Text) :
    (Text.when condition t).ink = Text.when condition t.ink := by
  cases condition <;> rfl

def front (h : Header) : Text :=
  if h.modifiers.isEmpty && h.isAbstract then "abstract" else h.modifiers

theorem ink_put (clause : Clause) {t shown : Text} (filled : t = [] ∨ t.ink ≠ [])
    (word : shown.ink = clause.keyword) :
    (Text.when (!t.isEmpty) (shown ++ t)).ink = clause.put t.ink := by
  rcases filled with rfl | inked
  · rfl
  · have some : t.isEmpty = false := by
      cases t with
      | nil => exact absurd rfl inked
      | cons => rfl
    rw [some, Clause.put, if_neg inked, ← word]
    exact Text.ink_append _ _

theorem ink_join_ne_nil {sep : Text} {pieces : List Text} (some : pieces ≠ [])
    (inked : ∀ p ∈ pieces, p.ink ≠ []) :
    (Text.join sep pieces).ink ≠ [] := by
  obtain ⟨piece, rest, rfl⟩ := List.exists_cons_of_ne_nil some
  have first := inked piece (by simp)
  cases rest <;> simp [Text.join, first]

theorem ink_render {h : Header} (parent : ∀ p ∈ h.superclass, p.ink ≠ [])
    (mixins : ∀ m ∈ h.mixins, m.ink ≠ []) (interfaces : ∀ i ∈ h.interfaces, i.ink ≠ [])
    (replaced : Text) :
    (h.render replaced).ink = h.front.ink ++
    ("class".toList ++ (h.nameText.ink ++ (h.generics.ink ++
      ((Clause.extends.put (h.superclass.getD []).ink ++
        (Clause.mixes.put (Text.join ", " h.mixins).ink ++
        Clause.implements.put (Text.join ", " h.interfaces).ink)) ++
          Text.when h.opensBody "\x7b")))) := by
  have listed : ∀ (clause : Clause) (shown : Text) (ts : List Text), (∀ t ∈ ts, t.ink ≠ []) →
      shown.ink = clause.keyword →
      (Text.when (!ts.isEmpty) (shown ++ Text.join ", " ts)).ink =
        clause.put (Text.join ", " ts).ink := by
    intro clause shown ts inked word
    cases ts with
    | nil => rfl
    | cons t rest =>
        have some : (Text.join ", " (t :: rest)).ink ≠ [] := ink_join_ne_nil (by simp) inked
        rw [Clause.put, if_neg some, ← word]
        exact Text.ink_append _ _
  have superclass : h.superclass.getD [] = [] ∨ (h.superclass.getD []).ink ≠ [] := by
    cases super : h.superclass with
    | none => exact .inl rfl
    | some p => exact .inr (parent p super)
  have indent : (indentOf replaced).ink = [] :=
    Text.ink_of_isBlankText (by simp [indentOf, Text.isBlankText])
  have modifiers : (Text.when (!h.front.isEmpty) (h.front ++ " ".toList)).ink = h.front.ink := by
    cases h.front with
    | nil => rfl
    | cons c tail => exact (Text.ink_append _ _).trans (List.append_nil _)
  have whole : h.render replaced = indentOf replaced ++ Text.when (!h.front.isEmpty)
      (h.front ++ " ".toList) ++
      "class ".toList ++ h.nameText ++ h.generics ++
      Text.when (!(h.superclass.getD []).isEmpty) (" extends ".toList ++ h.superclass.getD []) ++
      Text.when (!h.mixins.isEmpty) (" with ".toList ++ Text.join ", " h.mixins) ++
      Text.when (!h.interfaces.isEmpty) (" implements ".toList ++ Text.join ", " h.interfaces) ++
      Text.when h.opensBody " \x7b" := rfl
  have keyword : Text.ink "class ".toList = "class".toList := rfl
  have brace : (Text.when h.opensBody " \x7b").ink = Text.when h.opensBody "\x7b" := ink_when _ _
  have extended := ink_put .extends superclass (show Text.ink " extends ".toList = _ from rfl)
  have mixed := listed .mixes " with " h.mixins mixins rfl
  have implemented := listed .implements " implements " h.interfaces interfaces rfl
  rw [whole]
  simp only [Text.ink_append, indent, modifiers, keyword, brace, extended, mixed, implemented,
    List.nil_append, List.append_assoc]

/-! ## Reading and writing -/

theorem ink_unbraced (line : Text) :
    line.ink = (unbraced line).ink ++ Text.when (line.trim.endsWith "\x7b") "\x7b" := by
  rw [← Text.ink_trim line, unbraced]
  by_cases brace : line.trim.endsWith "\x7b"
  · have last : line.trim.getLast? = some '\x7b' := by
      rw [endsWith_brace] at brace
      exact beq_iff_eq.mp brace
    obtain ⟨start, split⟩ := List.getLast?_eq_some_iff.mp last
    rw [if_pos brace, brace, split, List.dropLast_concat, Text.ink_append]
    obtain ⟨blanks, blank, whole⟩ := Text.trimEnd_append_blank start
    conv_lhs => rw [whole, Text.ink_append, Text.ink_of_isBlankText blank, List.append_nil]
    rfl
  · rw [if_neg brace, Bool.eq_false_iff.mpr brace]
    exact (List.append_nil _).symm

/-- The two sides of a cut, with the separator between them, are the text. -/
theorem eq_append_of_cut? {sep t before after : Text} (h : Text.cut? sep t = some (before, after)) :
    t = before ++ (sep ++ after) := by
  induction t generalizing before with
  | nil =>
      rw [Text.cut?] at h
      split at h
      · rename_i none
        cases h
        simpa using none
      · cases h
  | cons c rest ih =>
      rw [Text.cut?] at h
      split at h
      · rename_i starts
        cases h
        obtain ⟨behind, same⟩ := List.isPrefixOf_iff_prefix.mp starts
        rw [← same, List.drop_left]
        rfl
      · obtain ⟨⟨front, behind⟩, found, same⟩ := Option.map_eq_some_iff.mp h
        cases same
        rw [ih found]
        rfl

/-- The type parameters stand in the token of the name, or are the next one. -/
theorem splitName_cases {declared clauses : List Text} {name generics : Text}
    (split : splitName declared = some (name, generics, clauses)) :
    declared = (name ++ generics) :: clauses ∨ declared = name :: generics :: clauses := by
  cases declared with
  | nil => cases split
  | cons token rest =>
      cases cut : Text.cut? "<" token with
      | some sides =>
          obtain ⟨front, parameters⟩ := sides
          simp only [splitName, cut] at split
          cases split
          have whole : token = name ++ '<' :: parameters := eq_append_of_cut? cut
          rw [whole]
          exact .inl rfl
      | none =>
          simp only [splitName, cut] at split
          cases rest with
          | nil =>
              cases split
              simp
          | cons next after =>
              dsimp only at split
              split at split
              · cases split
                exact .inr rfl
              · cases split
                simp

theorem ink_splitName {declared clauses : List Text} {name generics : Text}
    (split : splitName declared = some (name, generics, clauses)) :
    inkOf declared = name.ink ++ (generics.ink ++ inkOf clauses) := by
  rcases splitName_cases split with rfl | rfl
  · rw [inkOf, List.flatMap_cons, Text.ink_append, List.append_assoc]
    rfl
  · rfl

theorem ink_ne_nil_of_mem_tokens {t token : Text} (member : token ∈ Text.tokens t) :
    token.ink ≠ [] := by
  have filled : token ≠ [] := by simpa using (List.mem_filter.mp member).2
  have solid : ∃ c rest, token = c :: rest ∧ isBlank c = false := by
    obtain ⟨word, rest, rfl, plain, angle⟩ := Text.solidStart_of_mem_tokens member
    cases word with
    | cons c more => exact ⟨c, more ++ rest, rfl, (plain c (by simp)).1⟩
    | nil =>
        obtain ⟨c, more, rfl⟩ := List.exists_cons_of_ne_nil filled
        exact ⟨c, more, rfl, by rcases angle c more rfl with rfl | rfl <;> rfl⟩
  obtain ⟨c, rest, rfl, here⟩ := solid
  simp [Text.ink_cons here]

theorem ink_ne_nil_of_mem_splitTopLevel {t item : Text} (member : item ∈ Text.splitTopLevel ',' t) :
    item.ink ≠ [] := by
  obtain ⟨inside, filled⟩ := List.mem_filter.mp member
  obtain ⟨piece, -, rfl⟩ := List.mem_map.mp inside
  intro none
  rw [Text.ink_trim] at none
  have blank : piece.isBlankText := by simpa [Text.ink, Text.isBlankText] using none
  rw [Text.trim_of_isBlankText blank] at filled
  cases filled

theorem clauseTokens_subset (wanted : Clause) (open? : Option Clause) (ts : List Text) :
    clauseTokens wanted open? ts ⊆ ts := by
  induction ts generalizing open? with
  | nil => exact fun _ => id
  | cons t rest ih =>
      rw [clauseTokens]
      split
      · exact List.subset_cons_of_subset _ (ih _)
      · split
        · exact List.cons_subset_cons _ (ih _)
        · exact List.subset_cons_of_subset _ (ih _)

theorem subset_of_splitName {declared clauses : List Text} {name generics : Text}
    (split : splitName declared = some (name, generics, clauses)) : clauses ⊆ declared := by
  rcases splitName_cases split with rfl | rfl
  · exact List.subset_cons_self _ _
  · exact List.subset_cons_of_subset _ (List.subset_cons_self _ _)

/-- The header of a class that compares by the equatable package: it has the package's
    superclass where there was none, else the package's mixin. -/
def equatable (h : Header) : Header :=
  match h.superclass with
  | none => { h with superclass := some "Equatable" }
  | some _ => { h with mixins := h.mixins ++ ["EquatableMixin".toList] }

/-- What a header gets with it: a clause, or an entry of the list of mixins. -/
def added (h : Header) : Text :=
  if h.superclass = none then "extends Equatable"
  else if h.mixins = [] then "with EquatableMixin"
  else ", EquatableMixin"

/-- A header that gets a clause is written as before, with the clause put in. -/
theorem ink_render_equatable {h : Header} (parent : ∀ p ∈ h.superclass, p.ink ≠ [])
    (mixins : ∀ m ∈ h.mixins, m.ink ≠ []) (interfaces : ∀ i ∈ h.interfaces, i.ink ≠ [])
    (replaced : Text) :
    ∃ new, Grows (Clause.extends.put (h.superclass.getD []).ink)
        (Clause.mixes.put (Text.join ", " h.mixins).ink)
        (Clause.implements.put (Text.join ", " h.interfaces).ink) h.added.ink new ∧
      (h.equatable.render replaced).ink = h.front.ink ++
        ("class".toList ++ (h.nameText.ink ++ (h.generics.ink ++
          (new ++ Text.when h.opensBody "\x7b")))) := by
  cases super : h.superclass with
  | none =>
      have same : h.equatable = { h with superclass := some "Equatable".toList } := by
        rw [equatable, super]
      have put : h.added.ink = "extendsEquatable".toList := by
        rw [added, if_pos super]
        rfl
      rw [put]
      refine ⟨_, .parent, ?_⟩
      rw [same]
      apply ink_render (h := { h with superclass := some "Equatable".toList }) _ mixins interfaces
      rintro p given
      obtain rfl : "Equatable".toList = p := Option.some.inj given
      decide
  | some p =>
      have filled : p.ink ≠ [] := parent p super
      have same : h.equatable = { h with mixins := h.mixins ++ ["EquatableMixin".toList] } := by
        rw [equatable, super]
      have more : ∀ m ∈ h.mixins ++ ["EquatableMixin".toList], m.ink ≠ [] := by
        intro m member
        rcases List.mem_append.mp member with old | new
        · exact mixins m old
        · rw [List.mem_singleton.mp new]
          decide
      have written := ink_render (h :=
        { h with mixins := h.mixins ++ ["EquatableMixin".toList] }) parent more
        interfaces replaced
      have extended : Clause.extends.put p.ink = "extends".toList ++ p.ink := if_neg filled
      have others : ∀ t : Text, t.ink ≠ [] → Clause.mixes.put t.ink = "with".toList ++ t.ink :=
        fun t inked => if_neg inked
      have longer : (Text.join ", " (h.mixins ++ ["EquatableMixin".toList])).ink ≠ [] :=
        ink_join_ne_nil (by simp) more
      rw [same, written, Option.getD_some]
      simp only [super, Option.getD_some]
      rw [extended, others _ longer]
      by_cases none : h.mixins = []
      · have put : h.added.ink = "withEquatableMixin".toList := by
          rw [added, if_neg (by simp [super]), if_pos none]
          rfl
        rw [put, none]
        refine ⟨_, .mixin, ?_⟩
        simp only [List.append_assoc]
        rfl
      · have put : h.added.ink = ",EquatableMixin".toList := by
          rw [added, if_neg (by simp [super]), if_neg none]
          rfl
        rw [put, others _ (ink_join_ne_nil none mixins), Text.join_append none (by simp)]
        refine ⟨_, .entry, ?_⟩
        simp only [Text.ink_append, List.append_assoc]
        rfl

/-- What is read of a line, when it has a name and when it has none. -/
theorem parse_cases (line : Text) {modifiers declared : List Text}
    (keyword : splitKeyword (Text.tokens (unbraced line)) = (modifiers, declared)) :
    (parse line).modifiers = Text.join " " modifiers ∧
      (parse line).isAbstract = (modifiers.any fun m => m = "abstract" || m = "sealed") ∧
      (parse line).opensBody = line.trim.endsWith "\x7b" ∧
      (splitName declared = none → parse line =
        { modifiers := Text.join " " modifiers,
          isAbstract := modifiers.any fun m => m = "abstract" || m = "sealed"
          opensBody := line.trim.endsWith "\x7b" }) := by
  cases split : splitName declared with
  | none =>
      have read : parse line =
          { modifiers := Text.join " " modifiers,
            isAbstract := modifiers.any fun m => m = "abstract" || m = "sealed"
            opensBody := line.trim.endsWith "\x7b" } := by
        simp only [parse]
        rw [unbraced] at keyword
        rw [keyword]
        dsimp only
        rw [split]
      rw [read]
      exact ⟨rfl, rfl, rfl, fun _ => rfl⟩
  | some parts =>
      obtain ⟨name, generics, clauses⟩ := parts
      rw [parse_eq_of_tokens keyword split]
      exact ⟨rfl, rfl, rfl, fun none => by cases none⟩

theorem suffix_of_splitKeyword {ts modifiers declared : List Text}
    (keyword : splitKeyword ts = (modifiers, declared)) :
    modifiers ⊆ ts ∧ declared ⊆ ts := by
  rw [splitKeyword] at keyword
  split at keyword
  · cases keyword
    exact ⟨(List.takeWhile_prefix _).subset, fun t member =>
      (List.dropWhile_suffix _).subset (List.mem_of_mem_drop member)⟩
  · cases keyword
    exact ⟨List.nil_subset _, fun _ => id⟩

section Line

variable {line : Text} {modifiers declared : List Text}
  (keyword : splitKeyword (Text.tokens (unbraced line)) = (modifiers, declared))

include keyword

theorem ink_front : (parse line).front.ink = inkOf modifiers := by
  obtain ⟨front, abstract, -, -⟩ := parse_cases line keyword
  have opens : ∀ w ∈ modifiers, w.ink ≠ [] := fun w member =>
    ink_ne_nil_of_mem_tokens ((suffix_of_splitKeyword keyword).1 member)
  rw [Header.front, front, abstract]
  cases modifiers with
  | nil => rfl
  | cons w rest =>
      have some : (Text.join " " (w :: rest)).ink ≠ [] := ink_join_ne_nil (by simp) opens
      have filled : (Text.join " " (w :: rest)).isEmpty = false := by
        rw [List.isEmpty_eq_false_iff]
        intro none
        exact some (by rw [none]; rfl)
      rw [filled, Bool.false_and, if_neg Bool.false_ne_true, Text.ink_join_space, inkOf]

/-- What is read of a line is never blank. -/
theorem inked_parse : (∀ p ∈ (parse line).superclass, p.ink ≠ []) ∧
    (∀ m ∈ (parse line).mixins, m.ink ≠ []) ∧ ∀ i ∈ (parse line).interfaces, i.ink ≠ [] := by
  cases split : splitName declared with
  | none =>
      rw [(parse_cases line keyword).2.2.2 split]
      exact ⟨by simp, by simp, by simp⟩
  | some parts =>
      obtain ⟨name, generics, clauses⟩ := parts
      rw [parse_eq_of_tokens keyword split]
      refine ⟨?_, fun m => ink_ne_nil_of_mem_splitTopLevel,
        fun i => ink_ne_nil_of_mem_splitTopLevel⟩
      have inked : ∀ t ∈ clauseTokens .extends none clauses, t.ink ≠ [] := fun t member =>
        ink_ne_nil_of_mem_tokens ((suffix_of_splitKeyword keyword).2
          (subset_of_splitName split (clauseTokens_subset _ _ _ member)))
      intro p given
      cases parents : clauseTokens .extends none clauses with
      | nil =>
          rw [parents] at given
          cases given
      | cons first rest =>
          rw [parents] at given inked
          obtain rfl := Option.some.inj given
          exact ink_join_ne_nil (by simp) inked

theorem ink_equatable :
    ∃ new, Grows (Clause.extends.put ((parse line).superclass.getD []).ink)
        (Clause.mixes.put (Text.join ", " (parse line).mixins).ink)
        (Clause.implements.put (Text.join ", " (parse line).interfaces).ink)
        (parse line).added.ink new ∧
      ((parse line).equatable.render line).ink = inkOf modifiers ++
        ("class".toList ++ ((parse line).nameText.ink ++ ((parse line).generics.ink ++
          (new ++ Text.when (line.trim.endsWith "\x7b") "\x7b")))) := by
  obtain ⟨superclass, mixins, interfaces⟩ := inked_parse keyword
  rw [← (parse_cases line keyword).2.2.1, ← ink_front keyword]
  exact ink_render_equatable superclass mixins interfaces line

variable {name generics : Text} {clauses : List Text}
  (split : splitName declared = some (name, generics, clauses))

include split

theorem ink_equatable_of_name :
    ∃ new, Grows (Clause.extends.written (clauseTokens .extends none clauses))
        (Clause.mixes.written (clauseTokens .mixes none clauses))
        (Clause.implements.written (clauseTokens .implements none clauses))
        (parse line).added.ink new ∧
      ((parse line).equatable.render line).ink = inkOf modifiers ++
        ("class".toList ++ (name.ink ++ (generics.ink ++
          (new ++ Text.when (line.trim.endsWith "\x7b") "\x7b")))) := by
  obtain ⟨new, grows, written⟩ := ink_equatable keyword
  have read := parse_eq_of_tokens keyword split
  generalize parse line = h at *
  have parents : Clause.extends.written (clauseTokens .extends none clauses) =
      Clause.extends.put (h.superclass.getD []).ink := by
    rw [read]
    cases clauseTokens .extends none clauses <;> rfl
  subst read
  exact ⟨new, parents ▸ grows, written⟩

end Line

theorem ink_line {line name generics : Text} {modifiers declared clauses : List Text}
    (tokens : Text.tokens (unbraced line) = modifiers ++ "class".toList :: declared)
    (split : splitName declared = some (name, generics, clauses)) :
    line.ink = inkOf modifiers ++ ("class".toList ++ (name.ink ++ (generics.ink ++
      (inkOf clauses ++ Text.when (line.trim.endsWith "\x7b") "\x7b")))) := by
  have whole := Text.flatMap_ink_tokens (unbraced line)
  rw [tokens, List.flatMap_append, List.flatMap_cons] at whole
  have declaredInk := ink_splitName split
  rw [inkOf] at declaredInk
  rw [ink_unbraced, ← whole, declaredInk]
  simp only [List.append_assoc]
  rfl

/-! ## Lines that are read whole -/

/-- A header line whose parts are all read: behind the keyword and the name there are
    only the clauses, each at most once and in their order, and no item of theirs is blank. -/
def IsWhole (line : Text) : Prop :=
  ∃ (modifiers declared : List Text) (name generics : Text) (parents mixed implemented : List Text),
    Text.tokens (unbraced line) = modifiers ++ "class".toList :: declared ∧
      (∀ w ∈ modifiers, w ≠ "class") ∧
      splitName declared = some (name, generics, Clause.extends.tokens parents ++
        (Clause.mixes.tokens mixed ++ Clause.implements.tokens implemented)) ∧
      (∀ t ∈ parents ++ (mixed ++ implemented), Clause.ofToken? t = none) ∧
      Clause.mixes.IsKept mixed ∧ Clause.implements.IsKept implemented

/-- What is read of a line that is read whole is what stands in it. -/
theorem IsWhole.inserted {line : Text} (whole : IsWhole line) :
    ∃ before after, line.ink = before ++ after ∧
    ((parse line).equatable.render line).ink = before ++ (parse line).added.ink ++ after := by
  obtain ⟨modifiers, declared, name, generics, parents, mixed, implemented, tokens, other, split,
    free, mixes, implements⟩ := whole
  have keyword : splitKeyword (Text.tokens (unbraced line)) = (modifiers, declared) := by
    rw [tokens, splitKeyword_append other]
  have inked : ∀ t ∈ Clause.extends.tokens parents ++
      (Clause.mixes.tokens mixed ++ Clause.implements.tokens implemented),
      t.ink ≠ [] := fun t member => ink_ne_nil_of_mem_tokens
        ((suffix_of_splitKeyword keyword).2 (subset_of_splitName split member))
  obtain ⟨new, grows, written⟩ := ink_equatable_of_name keyword split
  have held := fun clause => clauseTokens_ordered clause free
  have kept : inkOf (Clause.extends.tokens parents ++
    (Clause.mixes.tokens mixed ++ Clause.implements.tokens implemented)) =
      Clause.extends.written parents ++
        (Clause.mixes.written mixed ++ Clause.implements.written implemented) := by
    have each : ∀ {clause : Clause} {ts : List Text}, (∀ t ∈ clause.tokens ts, t.ink ≠ []) →
        clause.IsKept ts →
        clause.written ts = inkOf (clause.tokens ts) := by
      intro clause ts some kept
      refine Clause.written_eq (fun t member => some t ?_) kept
      rw [Clause.tokens, if_neg (List.ne_nil_of_mem member)]
      exact List.mem_cons_of_mem _ member
    rw [inkOf_append, inkOf_append, each (fun t member => inked t (by simp [member])) (.inl rfl),
      each (fun t member => inked t (by simp [member])) mixes,
      each (fun t member => inked t (by simp [member])) implements]
  have shape : Grows (Clause.extends.written parents) (Clause.mixes.written mixed)
      (Clause.implements.written implemented)
      (parse line).added.ink new := by
    simpa [held] using grows
  obtain ⟨before, after, old, grown⟩ := shape.split
  have read := ink_line tokens split
  rw [kept, old] at read
  rw [grown] at written
  refine ⟨inkOf modifiers ++ ("class".toList ++ (name.ink ++ (generics.ink ++ before))),
    after ++ Text.when (line.trim.endsWith "\x7b") "\x7b", ?_, ?_⟩
  · rw [read]
    simp only [List.append_assoc]
  · rw [written]
    simp only [List.append_assoc]

theorem prefix_trimEnd (t : Text) : t.trimEnd <+: t := by
  obtain ⟨blanks, -, split⟩ := Text.trimEnd_append_blank t
  exact ⟨blanks, split.symm⟩

theorem unbraced_append_cons {c : Char} (solid : isBlank c = false) (other : c ≠ '\x7b')
    (start rest : Text) :
    ∃ rest', rest' <+: rest ∧ unbraced (start ++ c :: rest) = start.trimStart ++ c :: rest' := by
  have trimmed : Text.trim (start ++ c :: rest) = start.trimStart ++ c :: rest.trimEnd := by
    rw [Text.trim, Text.trimStart_append_cons solid, Text.trimEnd_append_cons solid]
  rw [unbraced, trimmed]
  split
  · rename_i brace
    rw [endsWith_brace, beq_iff_eq, List.getLast?_append_cons] at brace
    rcases List.eq_nil_or_concat rest.trimEnd with none | ⟨more, d, last⟩
    · rw [none] at brace
      exact absurd (Option.some.inj brace) other
    · rw [List.concat_eq_append] at last
      rw [last, ← List.cons_append, ← List.append_assoc, List.dropLast_concat,
        Text.trimEnd_append_cons solid]
      exact ⟨Text.trimEnd more, ((prefix_trimEnd more).trans ⟨[d], last.symm⟩).trans
        (prefix_trimEnd rest), rfl⟩
  · exact ⟨rest.trimEnd, prefix_trimEnd rest, rfl⟩

theorem trimStart_of_head {line : Text} {c : Char} (first : line.ink.head? = some c) :
    ∃ tail, line.trimStart = c :: tail := by
  have same : line.ink = line.trimStart.ink := by
    conv_lhs => rw [← List.takeWhile_append_dropWhile (p := isBlank) (l := line)]
    rw [Text.ink_append, Text.ink_of_isBlankText List.all_takeWhile]
    rfl
  rw [same] at first
  cases start : line.trimStart with
  | nil =>
      rw [start] at first
      cases first
  | cons d tail =>
      rw [start, Text.ink_cons (Text.isBlank_head_trimStart start), List.head?_cons,
        Option.some.injEq] at first
      exact ⟨tail, by rw [first]⟩

/-- A header line that starts with a `c` starts with a word that can open a header, and a
    blank stands behind it. -/
theorem firstWord_mem_openers {line tail : Text} (opens : isHeader line)
    (starts : line.trimStart = 'c' :: tail) :
    Text.firstWord line.trimStart ∈ openers ∧
      ∃ c rest, line.trimStart.dropWhile isWordChar = c :: rest ∧ isBlank c := by
  have front : line.trimStart = Text.firstWord line.trimStart ++
      line.trimStart.dropWhile isWordChar :=
    (List.takeWhile_append_dropWhile).symm
  by_contra plain
  have closed : isHeader line = false := by
    refine isHeader_eq_false front (List.all_eq_true.mp List.all_takeWhile) ?_ ?_ ?_
    · intro c rest same
      have stop := List.head?_dropWhile_not isWordChar line.trimStart
      simpa [same] using stop
    · by_cases listed : Text.firstWord line.trimStart ∈ openers
      · refine .inr fun c rest same => ?_
        rw [Bool.eq_false_iff]
        exact fun blank => plain ⟨listed, c, rest, same, blank⟩
      · exact .inl listed
    · intro rest same
      rw [← front, starts] at same
      exact absurd (List.cons.inj same).1 (by decide)
  rw [closed] at opens
  cases opens

theorem trimStart_class {line : Text} (opens : isHeader line) (first : line.ink.head? = some 'c') :
    ∃ behind, (∀ c rest, behind = c :: rest → isBlank c) ∧
      line.trimStart = "class".toList ++ behind := by
  obtain ⟨tail, starts⟩ := trimStart_of_head first
  obtain ⟨listed, c, rest, behind, blank⟩ := firstWord_mem_openers opens starts
  have front : line.trimStart = Text.firstWord line.trimStart ++
      line.trimStart.dropWhile isWordChar :=
    (List.takeWhile_append_dropWhile).symm
  have word : Text.firstWord line.trimStart = 'c' :: tail.takeWhile isWordChar := by
    rw [starts, Text.firstWord, List.takeWhile_cons_of_pos (by decide)]
  have only : ∀ w ∈ openers, w.head? = some 'c' → w = "class".toList := by decide
  refine ⟨line.trimStart.dropWhile isWordChar, ?_, ?_⟩
  · intro d more same
    obtain ⟨rfl, -⟩ := List.cons.inj (behind.symm.trans same)
    exact blank
  · rw [only _ listed (by rw [word]; rfl)] at front
    exact front

/-- The keyword of a header line that starts with it is a token. -/
theorem class_mem_tokens {line : Text} (opens : isHeader line) (first : line.ink.head? = some 'c') :
    "class".toList ∈ Text.tokens (unbraced line) := by
  obtain ⟨behind, blanks, split⟩ := trimStart_class opens first
  have whole : line = (line.takeWhile isBlank ++ "clas".toList) ++ 's' :: behind := by
    rw [List.append_assoc]
    conv_lhs => rw [← List.takeWhile_append_dropWhile (p := isBlank) (l := line)]
    exact congrArg _ split
  obtain ⟨rest, starts, core⟩ := unbraced_append_cons (c := 's') (by decide) (by decide)
    (line.takeWhile isBlank ++ "clas".toList) behind
  have front : Text.trimStart (line.takeWhile isBlank ++ "clas".toList) ++ 's' :: rest =
      "class".toList ++ rest := by
    rw [Text.trimStart_append_of_blank (by simp [Text.isBlankText])]
    rfl
  rw [whole, core, front]
  have token : Text.IsToken "class" := Text.isToken_of_solid (by decide) (by decide)
  cases rest with
  | nil =>
      rw [List.append_nil, Text.tokens_last token.whole token.filled]
      exact List.mem_singleton.mpr rfl
  | cons c more =>
      obtain ⟨tail, same⟩ := starts
      rw [Text.tokens_cons token.whole token.filled (blanks c (more ++ tail) same.symm)]
      exact List.mem_cons_self

theorem ink_added (h : Header) : ∃ c rest, h.added.ink = c :: rest ∧ c ≠ 'c' := by
  rw [added]
  split
  · exact ⟨'e', _, rfl, by decide⟩
  · split
    · exact ⟨'w', _, rfl, by decide⟩
    · exact ⟨',', _, rfl, by decide⟩

theorem class_mem_of_inserted {line before after : Text} (opens : isHeader line)
    (old : line.ink = before ++ after)
    (new : ((parse line).equatable.render line).ink = before ++ (parse line).added.ink ++ after) :
    "class".toList ∈ Text.tokens (unbraced line) := by
  by_contra absent
  have keyword : splitKeyword (Text.tokens (unbraced line)) =
      ([], Text.tokens (unbraced line)) := by
    rw [splitKeyword, if_neg (by simpa using absent)]
  obtain ⟨shown, -, written⟩ := ink_equatable keyword
  rw [written] at new
  cases before with
  | nil =>
      obtain ⟨c, more, inserted, other⟩ := ink_added (parse line)
      rw [inserted] at new
      exact other (List.cons.inj (show 'c' :: _ = c :: _ from new)).1.symm
  | cons d more =>
      obtain ⟨rfl, -⟩ := List.cons.inj (show 'c' :: _ = d :: _ from new)
      exact absent (class_mem_tokens opens (by rw [old]; rfl))

/-- A name that is missing is written all the same, and so more is added than the clause. -/
theorem length_equatable_of_nameless {line : Text} {modifiers declared : List Text}
    (tokens : Text.tokens (unbraced line) = modifiers ++ "class".toList :: declared)
    (keyword : splitKeyword (Text.tokens (unbraced line)) = (modifiers, declared))
    (nameless : splitName declared = none) :
    line.ink.length + (parse line).added.ink.length <
      ((parse line).equatable.render line).ink.length := by
  obtain ⟨shown, grows, written⟩ := ink_equatable keyword
  have grown := grows.length
  have named : (parse line).nameText.ink.length = 4 := by
    rw [(parse_cases line keyword).2.2.2 nameless]
    rfl
  have empty : declared = [] := by
    cases declared with
    | nil => rfl
    | cons t rest =>
        rw [splitName.eq_def] at nameless
        dsimp only at nameless
        repeat' split at nameless
        all_goals cases nameless
  have read : line.ink = inkOf modifiers ++
      ("class".toList ++ Text.when (line.trim.endsWith "\x7b") "\x7b") := by
    have whole := Text.flatMap_ink_tokens (unbraced line)
    rw [tokens, empty, List.flatMap_append] at whole
    rw [ink_unbraced, ← whole, List.append_assoc]
    rfl
  rw [written, read]
  simp only [List.length_append]
  omega

/-- A header that gets a clause loses nothing of its line just when the line is read
    whole. -/
theorem inserted_iff {line : Text} (opens : isHeader line) :
    (∃ before after, line.ink = before ++ after ∧
      ((parse line).equatable.render line).ink = before ++ (parse line).added.ink ++ after) ↔
        IsWhole line := by
  refine ⟨?_, IsWhole.inserted⟩
  rintro ⟨before, after, old, new⟩
  have size : (((parse line).equatable.render line).ink).length = line.ink.length +
      (parse line).added.ink.length := by
    rw [new, old]
    simp only [List.length_append]
    omega
  obtain ⟨modifiers, declared, tokens, other⟩ :=
    List.eq_append_cons_of_mem (class_mem_of_inserted opens old new)
  have keyword : splitKeyword (Text.tokens (unbraced line)) = (modifiers, declared) := by
    rw [tokens, splitKeyword_append fun w member same => other (same ▸ member)]
  cases split : splitName declared with
  | none =>
      have longer := length_equatable_of_nameless tokens keyword split
      omega
  | some parts =>
      obtain ⟨name, generics, clauses⟩ := parts
      obtain ⟨shown, grows, written⟩ := ink_equatable_of_name keyword split
      have read := ink_line tokens split
      obtain ⟨stray, sections, rfl, nowhere, free⟩ := exists_sections clauses
      have inked : ∀ t ∈ stray ++ sections.flatMap Section.tokens, t.ink ≠ [] := fun t member =>
        ink_ne_nil_of_mem_tokens
          ((suffix_of_splitKeyword keyword).2 (subset_of_splitName split member))
      obtain ⟨rfl, kept⟩ := sections_once nowhere free inked (by
        have grown := grows.length
        rw [written, read] at size
        simp only [List.length_append] at size
        omega)
      rw [List.nil_append] at split read
      simp only [clauseTokens_sections _ nowhere free, kept.written_held] at grows
      have inOrder : sections =
          Section.of .extends sections ++
            (Section.of .mixes sections ++ Section.of .implements sections) := by
        have line_ : (inkOf modifiers ++ ("class".toList ++ (name.ink ++ generics.ink))) ++
            (inkOf (sections.flatMap Section.tokens) ++
              Text.when (line.trim.endsWith "\x7b") "\x7b") = before ++ after := by
          rw [← old, read]
          simp only [List.append_assoc]
        have written_ : (inkOf modifiers ++ ("class".toList ++ (name.ink ++ generics.ink))) ++
            (shown ++ Text.when (line.trim.endsWith "\x7b") "\x7b") =
              before ++ (parse line).added.ink ++ after := by
          rw [← new, written]
          simp only [List.append_assoc]
        exact grows.inOrder (fun clause => (kept.parts clause).2.2) line_ written_
      refine ⟨modifiers, declared, name, generics,
        (Section.of .extends sections).flatMap Section.held, _, _, tokens,
        fun w member found => other (found ▸ member), ?_, ?_, (kept.parts .mixes).2.1,
          (kept.parts .implements).2.1⟩
      · rw [← (kept.parts .extends).1, ← (kept.parts .mixes).1, ← (kept.parts .implements).1,
          ← List.flatMap_append, ← List.flatMap_append, ← inOrder]
        exact split
      · intro t member
        simp only [List.mem_append] at member
        rcases member with first | second | third
        · exact kept.ofToken?_held _ t first
        · exact kept.ofToken?_held _ t second
        · exact kept.ofToken?_held _ t third

end ValueClass.Dart.Header
