import ValueClass.Proofs.Fresh.Growth
import ValueClass.Proofs.Member.Lead
import ValueClass.Proofs.Member.Positional
import ValueClass.Proofs.Member.Search

/-! # Methods below each other

A method can be laid out in many ways. It is found again when its first line keeps the
signature with the brace or the arrow behind it, when the search for its end takes all
of its lines, and when no other line starts like a member. Methods of a class that stand
below each other, with blank lines between them, are each found where they stand, since the
search passes all the others.
Names and types of fields that are taken for a hash code are left out, since the search
finds them in place of the member.
-/

namespace ValueClass.Dart

/-- A method that stands in a class: the lines above it that belong to it, such as its mark,
    and its own lines. Its ink is that of the given text. -/
structure Standing (className : Text) (kind : MemberKind) (text : Text) (above : List Text)
    (first : Text) (more : List Text) : Prop where
  method : kind ≠ .constructor
  quietAbove : Quiet className 1 above 1
  quiet : Quiet className 1 (first :: more) 1
  like : Like className kind first
  signs : Line.braces first = 1 ∨ first.has "=>"
  ends : ClassDecl.takeMember (first.has "=>") 1 0 (first :: more) =
    some (more.length, first :: more)
  ink : Text.sameInk (Text.unlines (first :: more)) text
  apart : ∀ line ∈ above, ∀ other, other ≠ .constructor → ¬ Like className other line
  unlike : ∀ line ∈ more, ∀ other, other ≠ .constructor → other ≠ kind → ¬ Like className other line

namespace Standing

variable {className text first : Text} {kind : MemberKind} {above more : List Text}

theorem quiet_lines (h : Standing className kind text above first more) :
    Quiet className 1 (above ++ first :: more) 1 :=
  h.quietAbove.append h.quiet

theorem unlike_other (h : Standing className kind text above first more)
    (plain : ∀ d ∈ className, Text.isPlain d)
    (upper : ∃ c rest, className = c :: rest ∧ c.isUpper) {other : MemberKind}
    (method : other ≠ .constructor) (differ : other ≠ kind) :
    ∀ line ∈ above ++ first :: more, ¬ Like className other line := by
  intro line member
  rcases List.mem_append.mp member with member | member
  · exact h.apart line member other method
  · rcases List.mem_cons.mp member with rfl | member
    · exact unlike_of_like upper plain method h.method h.like differ
    · exact h.unlike line member other method differ

/-- The method is found where it stands. -/
theorem findFrom (h : Standing className kind text above first more) {finder : Text}
    (signature : finder.ink = leadWord className kind ++ leadRest kind) (lineNo : Nat)
    (rest : List Text) :
    ClassDecl.findFrom (Text.signature finder) 1 lineNo (above ++ first :: more ++ rest) =
      some { first := lineNo + above.length, last := lineNo + above.length + more.length
             text := Text.unlines (first :: more) } := by
  have unlike : ∀ line ∈ above, ¬ finder.ink <+: line.ink := by
    intro line member
    rw [signature]
    exact h.apart line member kind h.method
  have like : finder.ink <+: first.ink := by
    rw [signature]
    exact h.like
  have signs : (1 : Int) + Line.braces first = 2 ∨ first.has "=>" := h.signs.imp (by omega) id
  have taken := ClassDecl.takeMember_append h.ends rest
  rw [List.append_assoc, ClassDecl.findFrom_append unlike, h.quietAbove.depthBehind,
    List.cons_append, ClassDecl.findFrom_cons like signs, ← Nat.zero_add (lineNo + above.length),
    ClassDecl.takeMember_add, ← List.cons_append, taken]
  simp only [Option.map_some]
  rw [show more.length + (lineNo + above.length) = lineNo + above.length + more.length by omega,
    Nat.zero_add]

end Standing

end ValueClass.Dart

namespace ValueClass.Fresh

open Dart Dart.Line

/-- A class without fields that can be taken for a hash code. -/
def ClassText.Unhashed (c : ClassText) : Prop :=
  ¬ c.hashLikeName ∧ ¬ c.hashLikeType

/-- Methods of some kinds that stand below each other, in some layout. -/
inductive Stands (s : Surroundings) (c : ClassText) : List MemberKind → List Text → Prop where
  | nil : Stands s c [] []
  | blank {kinds : List MemberKind} {ls : List Text} (below : Stands s c kinds ls) :
    Stands s c kinds ([] :: ls)
  | cons {kind : MemberKind} {kinds : List MemberKind} {above more ls : List Text} {first : Text}
      (standing : Standing c.name kind (memberText s c.plain kind) above first more)
      (once : kind ∉ kinds) (below : Stands s c kinds ls) :
    Stands s c (kind :: kinds) (above ++ first :: more ++ ls)

section Standing

variable {s : Surroundings} {c : ClassText} {kind : MemberKind}

theorem unlike_mark (ind : IsIndent s.indent) (method : kind ≠ .constructor) :
    ¬ Like c.name kind (s.indent ++ markLine) := by
  rw [like_indent ind]
  exact unlike_of_head c.upper method (by decide) (by decide) (by decide)

def markLines (s : Surroundings) (kind : MemberKind) : List Text :=
  if isMarked kind then [s.indent ++ markLine] else []

/-- The lines of a method stand as they are written. -/
theorem standing_methodLines (ind : IsIndent s.indent) (unhashed : c.Unhashed)
    (method : kind ≠ .constructor) :
    ∃ first more, c.methodLines s kind = markLines s kind ++ first :: more ∧
      Standing c.name kind (memberText s c.plain kind) (markLines s kind) first more := by
  obtain ⟨first, more, sheet⟩ := c.exists_sheet s ind method
  have open_ : ¬ c.exposes kind := by
    cases kind <;> simp [ClassText.exposes, unhashed.1, unhashed.2]
  have like : ∀ {other line}, Like c.name other (indented s.indent line) ↔
      Like c.name other line := by
    intro other line
    rw [indented]
    split
    · rfl
    · exact like_indent ind
  have text : memberText s c.plain kind = Text.unlines
      ((first :: more).map (indented s.indent)) := by
    rw [← sheet.layout.memberText, memberText_of_method s _ method]
  obtain ⟨signs, ends⟩ := sheet.member.takes
  rw [List.length_map] at ends
  refine ⟨_, _, c.methodLines_eq ind sheet, method, ?_, sheet.member.quiet, like.mpr sheet.like,
    signs, ?_, ?_, ?_, ?_⟩
  · rw [markLines]
    split
    · have level : Line.braces (s.indent ++ markLine) = 0 := by
        rw [braces_append, (snippet_light ind.light).raw]
        decide
      exact ⟨c.quietLine_mark ind, by rw [level]; rfl⟩
    · rfl
  · rwa [List.length_map]
  · rw [text]
    exact beq_self_eq_true _
  · intro line member other otherMethod
    rw [markLines] at member
    split at member
    · rw [List.mem_singleton.mp member]
      exact unlike_mark ind otherMethod
    · cases member
  · intro line member other otherMethod differ
    obtain ⟨old, inside, rfl⟩ := List.mem_map.mp member
    rw [like]
    exact sheet.unlike old inside other otherMethod differ fun _ => open_

end Standing

namespace Stands

variable {s : Surroundings} {c : ClassText} {kinds more : List MemberKind} {ls below : List Text}
  {kind : MemberKind}

theorem nodup (h : Stands s c kinds ls) : kinds.Nodup := by
  induction h with
  | nil => exact List.nodup_nil
  | blank below ih => exact ih
  | cons standing once below ih => exact List.nodup_cons.mpr ⟨once, ih⟩

theorem method (h : Stands s c kinds ls) (member : kind ∈ kinds) : kind ≠ .constructor := by
  induction h with
  | nil => cases member
  | blank below ih => exact ih member
  | cons standing once below ih =>
      rcases List.mem_cons.mp member with rfl | member
      · exact standing.method
      · exact ih member

theorem append (h : Stands s c kinds ls) (others : Stands s c more below)
    (apart : ∀ kind ∈ kinds, kind ∉ more) :
    Stands s c (kinds ++ more) (ls ++ below) := by
  induction h with
  | nil => exact others
  | blank below ih => exact .blank (ih apart)
  | @cons kind kinds above rest ls first standing once below ih =>
      have later := ih fun k member => apart k (List.mem_cons_of_mem _ member)
      have new : kind ∉ kinds ++ more := by
        rw [List.mem_append, not_or]
        exact ⟨once, apart kind (by simp)⟩
      rw [List.append_assoc]
      exact .cons standing new later

theorem quiet (h : Stands s c kinds ls) : Quiet c.name 1 ls 1 := by
  induction h with
  | nil => rfl
  | blank below ih => exact ⟨quietLine_nil c.name c.upper, ih⟩
  | cons standing once below ih => exact standing.quiet_lines.append ih

theorem unlike (h : Stands s c kinds ls) (method : kind ≠ .constructor) (missing : kind ∉ kinds) :
    ∀ line ∈ ls, ¬ Like c.name kind line := by
  induction h with
  | nil => simp
  | blank below ih =>
      intro line member
      rcases List.mem_cons.mp member with rfl | member
      · exact unlike_nil c.upper method rfl
      · exact ih missing line member
  | @cons other kinds above rest ls first standing once below ih =>
      rw [List.mem_cons, not_or] at missing
      intro line member
      rcases List.mem_append.mp member with member | member
      · exact standing.unlike_other c.plainName c.upper method missing.1 line member
      · exact ih missing.2 line member

/-- A method is found among the others. -/
theorem find (h : Stands s c kinds ls) (member : kind ∈ kinds) {finder : Text}
    (signature : finder.ink = leadWord c.name kind ++ leadRest kind) (lineNo : Nat)
    (rest : List Text) :
    ∃ span, ClassDecl.findFrom (Text.signature finder) 1 lineNo (ls ++ rest) = some span ∧
      Text.sameInk span.text (memberText s c.plain kind) := by
  induction h generalizing lineNo with
  | nil => cases member
  | @blank kinds ls below ih =>
      have unlike : ∀ line ∈ ([[]] : List Text), ¬ finder.ink <+: line.ink := by
        intro line inside
        rw [List.mem_singleton.mp inside, signature]
        exact unlike_nil c.upper (below.method member) rfl
      have passed := ClassDecl.findFrom_append unlike 1 lineNo (ls ++ rest)
      rw [List.singleton_append] at passed
      rw [List.cons_append, passed]
      exact ih member _
  | @cons other kinds above more ls first standing once below ih =>
      by_cases same : kind = other
      · subst same
        rw [List.append_assoc]
        exact ⟨_, standing.findFrom signature lineNo (ls ++ rest), standing.ink⟩
      · have inside : kind ∈ kinds := by simpa [same] using member
        have unlike : ∀ line ∈ above ++ first :: more, ¬ finder.ink <+: line.ink := by
          intro line member
          rw [signature]
          exact standing.unlike_other c.plainName c.upper (below.method inside) same line member
        rw [List.append_assoc, ClassDecl.findFrom_append unlike, standing.quiet_lines.depthBehind]
        exact ih inside _

end Stands

/-- The lines that a run appends for some methods: a blank line sets them off. -/
def ClassText.appendedLines (s : Surroundings) (c : ClassText) : List MemberKind → List Text
  | [] => []
  | kind :: kinds => [] :: (kind :: kinds).flatMap (c.methodLines s)

theorem stands_flatMap {s : Surroundings} {c : ClassText} (ind : IsIndent s.indent)
    (unhashed : c.Unhashed) {kinds : List MemberKind} (once : kinds.Nodup)
    (methods : ∀ kind ∈ kinds, kind ≠ .constructor) :
    Stands s c kinds (kinds.flatMap (c.methodLines s)) := by
  induction kinds with
  | nil => exact .nil
  | cons kind rest ih =>
      obtain ⟨first, once⟩ := List.nodup_cons.mp once
      obtain ⟨line, more, lines, standing⟩ :=
        standing_methodLines ind unhashed (methods kind (by simp))
      rw [List.flatMap_cons, lines]
      exact .cons standing first (ih once fun k member => methods k (List.mem_cons_of_mem _ member))

theorem stands_appendedLines {s : Surroundings} {c : ClassText} (ind : IsIndent s.indent)
    (unhashed : c.Unhashed) {kinds : List MemberKind} (once : kinds.Nodup)
    (methods : ∀ kind ∈ kinds, kind ≠ .constructor) :
    Stands s c kinds (c.appendedLines s kinds) := by
  cases kinds with
  | nil => exact .nil
  | cons kind rest => exact .blank (stands_flatMap ind unhashed once methods)

end ValueClass.Fresh
