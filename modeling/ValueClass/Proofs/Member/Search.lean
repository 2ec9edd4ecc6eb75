import ValueClass.Member.Span
import ValueClass.Proofs.Dart.Reading
import ValueClass.Proofs.Text.Ink

/-! # Searching for a member

The search passes every line that does not start like the member, and it stops at
the first that does. What it returns from there is the member itself when its
lines are those of a member: one line with an arrow, or a block. How a line starts
is told by its ink, so the search reads no blank there.
-/

namespace ValueClass.Dart

def depthBehind (depth : Int) (ls : List Text) : Int :=
  ls.foldl (fun depth line => depth + Line.braces line) depth

@[simp] theorem depthBehind_nil (depth : Int) : depthBehind depth [] = depth := rfl

@[simp] theorem depthBehind_cons (depth : Int) (line : Text) (ls : List Text) :
    depthBehind depth (line :: ls) = depthBehind (depth + Line.braces line) ls := rfl

theorem depthBehind_append (depth : Int) (a b : List Text) :
    depthBehind depth (a ++ b) = depthBehind (depthBehind depth a) b :=
  List.foldl_append

theorem Quiet.depthBehind {className : Text} {depth behind : Int} {ls : List Text}
    (quiet : Quiet className depth ls behind) : depthBehind depth ls = behind := by
  induction ls generalizing depth with
  | nil => exact quiet
  | cons line rest ih => exact ih quiet.2

namespace ClassDecl

variable {finder : Text}

theorem findFrom_append {ls : List Text} (unlike : ∀ line ∈ ls, ¬ finder.ink <+: line.ink)
    (depth : Int) (lineNo : Nat) (rest : List Text) :
    findFrom (Text.signature finder) depth lineNo (ls ++ rest) =
      findFrom (Text.signature finder) (depthBehind depth ls) (lineNo + ls.length) rest := by
  induction ls generalizing depth lineNo with
  | nil => rfl
  | cons line more ih =>
      have here : (Text.signature line).startsWith (Text.signature finder) = false := by
        rw [Bool.eq_false_iff, ne_eq, Text.startsWith_signature_iff]
        exact unlike line (by simp)
      rw [List.cons_append, findFrom]
      simp only [here, Bool.false_and, Bool.false_eq_true, ↓reduceIte]
      rw [ih fun l member => unlike l (List.mem_cons_of_mem _ member), List.length_cons,
        depthBehind_cons, show lineNo + 1 + more.length = lineNo + (more.length + 1) by omega]

theorem findFrom_eq_none {ls : List Text} (unlike : ∀ line ∈ ls, ¬ finder.ink <+: line.ink)
    (depth : Int) (lineNo : Nat) : findFrom (Text.signature finder) depth lineNo ls = none := by
  have := findFrom_append unlike depth lineNo []
  rwa [List.append_nil] at this

theorem findFrom_cons {line : Text} (like : finder.ink <+: line.ink) {depth : Int}
    (signs : depth + Line.braces line = 2 ∨ line.has "=>") (lineNo : Nat) (rest : List Text) :
    findFrom (Text.signature finder) depth lineNo (line :: rest) =
      (takeMember (line.has "=>") depth lineNo (line :: rest)).map fun (last, ls) =>
        { first := lineNo, last, text := Text.unlines ls } := by
  have here : (Text.signature line).startsWith (Text.signature finder) = true :=
    (Text.startsWith_signature_iff _ _).mpr like
  have signs : (depth + Line.braces line == 2 || line.has "=>") = true := by simpa using signs
  rw [findFrom]
  dsimp only
  rw [here, signs]
  rfl

theorem takeMember_add (expression : Bool) (depth : Int) (lineNo by_ : Nat) (lines : List Text) :
    takeMember expression depth (lineNo + by_) lines =
      (takeMember expression depth lineNo lines).map fun taken => (taken.1 + by_, taken.2) := by
  induction lines generalizing depth lineNo with
  | nil => rfl
  | cons line rest ih =>
      rw [takeMember, takeMember]
      split
      · rfl
      · rw [show lineNo + by_ + 1 = lineNo + 1 + by_ by omega, ih, Option.map_map, Option.map_map]
        rfl

theorem takeMember_append {expression : Bool} {depth : Int} {lineNo : Nat} {lines : List Text}
    {taken : Nat × List Text} (ends : takeMember expression depth lineNo lines = some taken)
    (rest : List Text) :
    takeMember expression depth lineNo (lines ++ rest) = some taken := by
  induction lines generalizing depth lineNo taken with
  | nil => cases ends
  | cons line more ih =>
      rw [List.cons_append, takeMember]
      rw [takeMember] at ends
      dsimp only at ends ⊢
      split
      · rename_i here
        rwa [if_pos here] at ends
      · rename_i goes
        rw [if_neg goes] at ends
        obtain ⟨behind, taken', rfl⟩ := Option.map_eq_some_iff.mp ends
        rw [ih taken']
        rfl

/-! ## Lines inside a member -/

/-- A line inside the body of a member: two braces are open behind it. -/
structure DeepLine (depth : Int) (line : Text) : Prop where
  hides : Line.HidesNoBrace line
  noHeader : Header.isHeader line = false
  inside : 2 ≤ depth + Line.braces line

def Deep : Int → List Text → Int → Prop
  | depth, [], behind => depth = behind
  | depth, line :: rest, behind => DeepLine depth line ∧ Deep (depth + Line.braces line) rest behind

theorem Deep.append {depth between behind : Int} {a b : List Text} (first : Deep depth a between)
    (second : Deep between b behind) : Deep depth (a ++ b) behind := by
  induction a generalizing depth with
  | nil =>
      rw [Deep] at first
      rwa [first]
  | cons line rest ih => exact ⟨first.1, ih first.2⟩

theorem Deep.quiet {depth behind : Int} {ls : List Text} (deep : Deep depth ls behind)
    (start : 2 ≤ depth) (className : Text) : Quiet className depth ls behind := by
  induction ls generalizing depth with
  | nil => exact deep
  | cons line rest ih =>
      obtain ⟨here, deep⟩ := deep
      have := here.inside
      refine ⟨⟨here.hides, here.noHeader, by omega, ?_, ?_⟩, ih deep this⟩
      · intro one
        omega
      · intro one
        omega

theorem takeMember_deep {depth behind : Int} {ls : List Text} (deep : Deep depth ls behind)
    {last : Text} (closes : behind + Line.braces last = 1) (lineNo : Nat) (rest : List Text) :
    takeMember false depth lineNo (ls ++ last :: rest) = some
      (lineNo + ls.length, ls ++ [last]) := by
  induction ls generalizing depth lineNo with
  | nil =>
      rw [Deep] at deep
      simp [takeMember, endsMember, deep, closes]
  | cons line more ih =>
      obtain ⟨here, deep⟩ := deep
      have inside := here.inside
      have goes : endsMember false (depth + Line.braces line) line = false := by
        simp only [endsMember, Bool.false_eq_true, ↓reduceIte, beq_eq_false_iff_ne]
        omega
      rw [List.cons_append, takeMember]
      simp only [goes, Bool.false_eq_true, ↓reduceIte]
      rw [ih deep, Option.map_some, List.length_cons, List.cons_append,
        show lineNo + 1 + more.length = lineNo + (more.length + 1) by omega]

/-- The lines of a member, one brace being open before them: a line with an arrow,
    or a block. -/
inductive IsMember (className : Text) : List Text → Prop
  | arrow {line : Text} (quiet : QuietLine className 1 line) (weight : Line.braces line = 0)
      (arrow : line.has "=>") (ends : line.trimEnd.endsWith ";") : IsMember className [line]
  | block {first last : Text} {inner : List Text} (quiet : QuietLine className 1 first)
      (weight : Line.braces first = 1) (noArrow : first.has "=>" = false) (deep : Deep 2 inner 2)
      (closing : QuietLine className 2 last) (closes : Line.braces last = -1) :
      IsMember className (first :: (inner ++ [last]))

theorem IsMember.quiet {className : Text} {ls : List Text} (member : IsMember className ls) :
    Quiet className 1 ls 1 := by
  cases member with
  | arrow quiet weight => exact ⟨quiet, by rw [weight]; rfl⟩
  | block quiet weight noArrow deep closing closes =>
      refine ⟨quiet, ?_⟩
      rw [weight]
      exact (deep.quiet (by omega) className).append ⟨closing, by rw [closes]; rfl⟩

/-- The search for the end of a member takes its lines. -/
theorem IsMember.takes {className first : Text} {more : List Text}
    (member : IsMember className (first :: more)) :
    (Line.braces first = 1 ∨ first.has "=>") ∧
      takeMember (first.has "=>") 1 0 (first :: more) = some (more.length, first :: more) := by
  generalize same : first :: more = ls at member
  cases member with
  | arrow quiet weight arrow ends =>
      cases same
      have done : endsMember true (1 + Line.braces first) first = true := ends
      refine ⟨.inr arrow, ?_⟩
      rw [arrow, takeMember]
      simp only [done, ↓reduceIte]
      rfl
  | @block head last inner quiet weight noArrow deep closing closes =>
      cases same
      have goes : endsMember false (1 + Line.braces first) first = false := by
        rw [weight]
        rfl
      refine ⟨.inl weight, ?_⟩
      have back : 2 + Line.braces last = 1 := by omega
      have taken := takeMember_deep deep back (0 + 1) []
      rw [noArrow, takeMember]
      simp only [goes, Bool.false_eq_true, ↓reduceIte]
      rw [weight, show (1 + 1 : Int) = 2 from rfl, taken]
      simp only [Option.map_some, List.length_append, List.length_singleton]
      rw [show 0 + 1 + inner.length = inner.length + 1 by omega]

/-- Signatures tell texts apart by their ink. They are the same just when the ink is, a signature is
    spelled as its own, and one starts with another just when the ink does; so this is all that the
    search for a member asks of the start of a line, whatever comes before and behind it. -/
theorem signature_reads_ink (line finder : Text) :
    (Text.signature line = Text.signature finder ↔ line.sameInk finder) ∧
      Text.signature (Text.signature line) = Text.signature line ∧
      ((Text.signature line).startsWith (Text.signature finder) ↔ line.ink.startsWith finder.ink) ∧
      ∀ (depth : Int) (lineNo : Nat) (rest : List Text),
        findFrom (Text.signature finder) depth lineNo (line :: rest) =
          if line.ink.startsWith finder.ink && (depth + Line.braces line == 2 || line.has "=>") then
            (takeMember (line.has "=>") depth lineNo (line :: rest)).map fun (last, ls) =>
              { first := lineNo, last, text := Text.unlines ls }
          else findFrom (Text.signature finder) (depth + Line.braces line) (lineNo + 1) rest := by
  have start := Text.startsWith_signature line finder
  refine ⟨?_, Text.signature_signature line, by rw [start], ?_⟩
  · rw [Text.signature_eq_iff, Text.sameInk, beq_iff_eq]
  · intro depth lineNo rest
    rw [findFrom, start]

end ClassDecl

end ValueClass.Dart
