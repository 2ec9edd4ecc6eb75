import ValueClass.Proofs.Fresh.FieldLine

/-! # The header of a fresh class

A fresh header names the class and nothing else; once the class compares by the
equatable package, it extends a class. Both lines are read back to their parts.
-/

namespace ValueClass.Fresh

open Dart

/-- The header line of a class, which may extend `Equatable`. -/
def headerLine (name : Text) (extended : Bool) : Text :=
  "class " ++ (name ++ ((if extended then " extends Equatable" else [] : Text) ++ " \x7b"))

def headerParts (name : Text) (extended : Bool) : Header where
  name := some name
  superclass := if extended then some "Equatable".toList else none

section Reading

variable {name : Text} (h : IsIdentifier name) (extended : Bool)

include h

theorem unquoted_headerLine : ∀ c ∈ headerLine name extended, Line.isQuote c = false := by
  have clause : ∀ c ∈ (if extended then " extends Equatable" else [] : Text),
      Line.isQuote c = false := by
    cases extended <;> decide
  have front : ∀ c ∈ "class ".toList, Line.isQuote c = false := by decide
  have back : ∀ c ∈ " \x7b".toList, Line.isQuote c = false := by decide
  intro c member
  unfold headerLine at member
  simp only [List.mem_append] at member
  rcases member with member | member | member | member
  · exact front c member
  · exact Line.unquoted_of_light h.light c member
  · exact clause c member
  · exact back c member

theorem notMem_headerLine {c : Char} (strange : Text.isPlain c = false)
    (other : c ≠ ' ' ∧ c ≠ '\x7b') :
    c ∉ headerLine name extended := by
  have chars : ∀ t ∈ ["class ".toList, " extends Equatable".toList, " \x7b".toList], ∀ d ∈ t,
      Text.isPlain d ∨ d = ' ' ∨ d = '\x7b' := by decide
  have absent : ∀ t ∈ ["class ".toList, " extends Equatable".toList, " \x7b".toList], c ∉ t := by
    intro t known member
    rcases chars t known c member with plain | same | same
    · simp [plain] at strange
    · exact other.1 same
    · exact other.2 same
  have clause : c ∉ (if extended then " extends Equatable" else [] : Text) := by
    cases extended with
    | false => exact List.not_mem_nil
    | true => exact absent _ (by decide)
  unfold headerLine
  simp only [List.mem_append, not_or]
  exact ⟨absent _ (by decide), h.notMem strange, clause, absent _ (by decide)⟩

theorem weighs_headerLine : Line.Weighs 1 (headerLine name extended) := by
  have level : Line.braces (headerLine name extended) = 1 := by
    have clause : Line.braces (if extended then " extends Equatable" else [] : Text) = 0 := by
      cases extended <;> decide
    unfold headerLine
    rw [Line.braces_append, Line.braces_append, Line.braces_append, clause,
      (Line.snippet_light h.light).raw]
    decide
  rw [← level]
  exact Line.weighs_of_unquoted (unquoted_headerLine h extended)

theorem parens_headerLine : Line.parens (headerLine name extended) = 0 := by
  have clause : Line.parens (if extended then " extends Equatable" else [] : Text) = 0 := by
    cases extended <;> decide
  have inner : Line.parens name = 0 := by
    apply Line.parens_eq_zero
    intro c member
    exact ⟨Text.ne_of_isPlain (h.plain c member) (by decide),
      Text.ne_of_isPlain (h.plain c member) (by decide)⟩
  unfold headerLine
  rw [Line.parens_append, Line.parens_append, Line.parens_append, clause, inner]
  decide

theorem isHeader_headerLine : Header.isHeader (headerLine name extended) := by
  have front : headerLine name extended =
      "class".toList ++ ' ' ::
        (name ++ ((if extended then " extends Equatable" else [] : Text) ++ " \x7b")) := by
    unfold headerLine
    rfl
  generalize (if extended then " extends Equatable" else [] : Text) ++ " \x7b".toList =
    tail at front
  obtain ⟨c, rest, same, first⟩ := h.first
  have solid : isBlank c = false := h.solid c (by simp [same])
  have start : Text.trimStart (headerLine name extended) = headerLine name extended := by
    rw [front]
    exact Text.trimStart_cons (by decide) _
  have unmarked : Header.afterAnnotation? (headerLine name extended) = none := by
    rw [front]
    rfl
  have plain : Header.afterModifier? (headerLine name extended) = none := by
    rw [Header.afterModifier?, List.findSome?_eq_none_iff]
    intro word member
    have apart : ∀ word ∈ Header.modifierWords, ∀ t : Text,
        word.isPrefixOf ("class".toList ++ ' ' :: t) = false := by
      intro word member t
      have others : ∀ word ∈ Header.modifierWords, word.head? ≠ some 'c' ∧ word ≠ [] := by decide
      obtain ⟨other, some⟩ := others word member
      cases word with
      | nil => exact absurd rfl some
      | cons c rest =>
          show List.isPrefixOf (c :: rest) ('c' :: _) = false
          have : c ≠ 'c' := by simpa using other
          rw [List.isPrefixOf_cons_cons]
          simp [this]
    rw [front, Text.dropStart?, apart word member]
    rfl
  have keyword : (Text.dropStart? "class" (headerLine name extended)).bind Header.afterBlanks? =
      some (c :: (rest ++ tail)) := by
    have begins : "class".toList.isPrefixOf ("class".toList ++ ' ' :: (name ++ tail)) = true :=
      List.isPrefixOf_iff_prefix.mpr (List.prefix_append _ _)
    rw [front, Text.dropStart?, if_pos begins, List.drop_left, Option.bind_some,
      Header.afterBlanks?]
    rw [if_pos (by decide), same, List.cons_append, Text.trimStart_cons solid]
  simp only [Header.isHeader, start, Header.skipAll_eq_self unmarked, Header.skipAll_eq_self plain,
    keyword]
  rcases first with alpha | rfl
  · simp [alpha]
  · rfl

omit h in
/-- A header line in its tokens. -/
theorem parse_eq {body : Text} {clauses : List Text} {c : Char} {start : Text}
    (ends : body = start ++ [c]) (solid : isBlank c = false)
    (tokens : Text.tokens ("class ".toList ++ body) = "class".toList :: name :: clauses)
    (unbracketed : '<' ∉ name) (next : (clauses.head?.getD []).startsWith "<" = false) :
    Header.parse ("class ".toList ++ (body ++ " \x7b".toList)) =
      { name := some name
        superclass :=
          let parent := Header.clauseTokens .extends none clauses
          if parent.isEmpty then none else some (Text.join " " parent)
        mixins := Text.splitTopLevel ',' (Text.join " " (Header.clauseTokens .mixes none clauses))
        interfaces := Text.splitTopLevel ','
          (Text.join " " (Header.clauseTokens .implements none clauses)) } := by
  have whole : "class ".toList ++ (body ++ " \x7b".toList) =
      ("class ".toList ++ body ++ [' ']) ++ ['\x7b'] := by
    simp only [List.append_assoc]
    rfl
  have trimmed : Text.trim ("class ".toList ++ (body ++ " \x7b".toList)) =
      ("class ".toList ++ body ++ [' ']) ++ ['\x7b'] := by
    have same : Text.trim ([] ++ ("class ".toList ++ (body ++ " \x7b".toList))) =
        "class ".toList ++ (body ++ " \x7b".toList) := Text.trim_append_of_blank rfl ?_ ?_
    · exact same.trans whole
    · intro d rest same
      have : 'c' = d := (List.cons.inj same).1
      subst this
      decide
    · intro d rest same
      rw [whole] at same
      cases (List.append_inj' same rfl).2
      decide
  have opensBody : Text.endsWith (("class ".toList ++ body ++ [' ']) ++ ['\x7b']) "\x7b" = true :=
    List.isSuffixOf_iff_suffix.mpr (List.suffix_append _ _)
  have declared : Text.trimEnd ("class ".toList ++ body ++ [' ']) = "class ".toList ++ body := by
    rw [Text.trimEnd_append_of_blank (by decide), ends, ← List.append_assoc,
      Text.trimEnd_concat solid]
  have keyword : Header.splitKeyword ("class".toList :: name :: clauses) =
      ([], name :: clauses) := by
    rw [Header.splitKeyword, if_pos (by simp), List.takeWhile_cons_of_neg (by simp),
      List.dropWhile_cons_of_neg (by simp)]
    rfl
  have split : Header.splitName (name :: clauses) = some (name, [], clauses) := by
    have whole : Text.cut? "<" name = none := Text.cut?_eq_none unbracketed
    cases clauses with
    | nil => simp only [Header.splitName, whole]
    | cons token rest =>
        have : Text.startsWith token "<" = false := next
        simp only [Header.splitName, whole, this, Bool.false_eq_true, ↓reduceIte]
  simp only [Header.parse, trimmed, opensBody, ↓reduceIte, List.dropLast_concat, declared, tokens,
    keyword, split]
  rfl

/-- The header line is read back to its parts. -/
theorem parse_headerLine : Header.parse (headerLine name extended) = headerParts name extended := by
  have keyword : Text.Passes angleStep isBlank 0 "class".toList 0 :=
    Text.passes_of_forall (by decide) 0
  cases extended with
  | false =>
      obtain ⟨d, start, same⟩ : ∃ d start, name = start ++ [d] := by
        rcases List.eq_nil_or_concat name with none | ⟨start, d, same⟩
        · exact absurd none h.ne_nil
        · exact ⟨d, start, by rw [same, List.concat_eq_append]⟩
      have tokens : Text.tokens ("class ".toList ++ name) = ["class".toList, name] := by
        show Text.tokens ("class".toList ++ ' ' :: name) = _
        rw [Text.tokens_cons keyword (by decide) (by decide),
          Text.tokens_last (h.passes 0) h.ne_nil]
      exact parse_eq same (h.solid d (by simp [same])) tokens (h.notMem (by decide)) rfl
  | true =>
      have clause : Text.tokens "extends Equatable".toList =
          ["extends".toList, "Equatable".toList] := by
        decide
      have tokens : Text.tokens ("class ".toList ++ (name ++ " extends Equatable".toList)) =
          ["class".toList, name, "extends".toList, "Equatable".toList] := by
        show Text.tokens ("class".toList ++ ' ' :: (name ++ ' ' :: "extends Equatable".toList)) = _
        rw [Text.tokens_cons keyword (by decide) (by decide),
          Text.tokens_cons (h.passes 0) h.ne_nil (by decide), clause]
      have ends : name ++ " extends Equatable".toList =
          (name ++ " extends Equatabl".toList) ++ ['e'] := by
        rw [List.append_assoc]
        rfl
      have := parse_eq ends (by decide) tokens (h.notMem (by decide)) (by decide)
      rw [List.append_assoc] at this
      exact this

end Reading

end ValueClass.Fresh
