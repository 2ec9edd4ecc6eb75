import ValueClass.Proofs.Member.CtorText
import ValueClass.Proofs.Member.Layout
import ValueClass.Proofs.Member.ParamText
import ValueClass.Proofs.Text.Ink

/-! # Behind the parameter list

What follows the parameter list of a constructor, an initializer list or the start of
a body, is taken over when the constructor is written anew. Only a widget whose
constructor does not pass its key on gets another text in its place, whatever stood
there.
-/

namespace ValueClass

namespace Text

theorem ink_indentBlock {indent : Text} (blank : indent.isBlankText) (t : Text) :
    ink (indentBlock indent t) = ink t := by
  have each : ∀ line : Text, ink (if line.isBlankText then line else indent ++ line) =
      ink line := by
    intro line
    split
    · rfl
    · rw [ink_append, ink_of_isBlankText blank, List.nil_append]
  rw [indentBlock, ink_unlines, List.flatMap_map]
  simp only [each]
  rw [← ink_unlines, unlines_lines]

end Text

namespace Dart

/-- The constructor up to the end of its parameter list. -/
def ConstructorPlan.headText (plan : ConstructorPlan) (indent className : Text) : Text :=
  Text.when (!plan.kept.lead.isEmpty) (plan.kept.lead ++ " ") ++ className ++ plan.listText indent

theorem ConstructorPlan.ink_text (plan : ConstructorPlan) (indent className : Text) :
    (plan.text indent className).ink =
    (plan.headText indent className).ink ++ plan.kept.rest.ink := by
  have gap : ∀ condition, (Text.when condition " ".toList).ink = [] := by
    intro condition
    cases condition <;> rfl
  show Text.ink (plan.headText indent className ++ _ ++ plan.kept.rest) = _
  rw [Text.ink_append, Text.ink_append, gap, List.append_nil]

/-- A parameter that binds no field hands the key to the superclass. -/
def ClassDecl.PassesKey (c : ClassDecl) (ctor : Constructor) : Prop :=
  ∃ p ∈ (KeptParams.ofConstructor c ctor).extras ++ (KeptParams.ofConstructor c ctor).groupExtras,
    p.endsWith "super.key"

/-- What follows the parameter list gives way to passing the key on. -/
def ClassDecl.DropsSegment (c : ClassDecl) (ctor : Constructor) (segment : Text) : Prop :=
  c.header.isWidget ∧ ¬ segment.has "super(" ∧ ¬ c.PassesKey ctor

/-- A text holds what followed the parameter list, with nothing added but the key of a
    widget that had no initializer list and did not pass its key on. -/
def ClassDecl.KeepsSegment (c : ClassDecl) (ctor : Constructor) (head written segment : Text) :
    Prop :=
  written.ink = head.ink ++ segment.ink ∨
    c.header.isWidget ∧ ¬ ":".toList <+: segment.ink ∧ ¬ c.PassesKey ctor ∧
      written.ink = head.ink ++ Text.ink ": super(key: key)" ++ segment.ink

section Segment

variable {c : ClassDecl} {ctor : Constructor} {lead params segment : Text}

theorem rest_ofConstructor (isLead : IsLead lead) (label : IsLabel c.name)
    (split : ctor.text = lead ++ (c.name ++ '(' :: (params ++ ')' :: segment)))
    (balanced : CtorParts.Balanced 1 params 1) :
    (KeptParams.ofConstructor c ctor).rest = segment.trim := by
  have cut : CtorParts.cutAtClose 1 (params ++ ')' :: segment) = some (params, segment) := by
    have last : CtorParts.cutAtClose 1 (')' :: segment) = some ([], segment) := rfl
    rw [CtorParts.cutAtClose_append balanced, last]
    simp
  show (CtorParts.ofText ctor.text c.name).rest = _
  rw [CtorParts.ofText, split, cut?_ctor isLead label]
  dsimp only
  rw [cut, Option.getD_some]
  dsimp only
  split
  · rfl
  · split <;> rfl

theorem has_trim_iff (t : Text) : t.trim.has "super(" ↔ t.has "super(" := by
  rw [Text.has_iff_infix, Text.has_iff_infix]
  constructor
  · intro inside
    obtain ⟨before, after, -, -, whole⟩ := Text.trim_split t
    rw [whole]
    exact inside.trans ⟨before, after, rfl⟩
  · intro inside
    exact Text.infix_trim inside (by decide)

/-- What follows the list of the constructor that is written. -/
theorem rest_ofClass (isLead : IsLead lead) (label : IsLabel c.name) (found : c.ctor = some ctor)
    (complete : ctor.lastLine.isSome)
    (split : ctor.text = lead ++ (c.name ++ '(' :: (params ++ ')' :: segment)))
    (balanced : CtorParts.Balanced 1 params 1) [Decidable (c.DropsSegment ctor segment)] :
    (KeptParams.ofClass c).rest =
      if c.DropsSegment ctor segment then ": super(key: key);".toList else segment.trim := by
  have rest := rest_ofConstructor isLead label split balanced
  simp only [KeptParams.ofClass, found, complete, ↓reduceIte]
  by_cases widget : c.header.isWidget
  · have passes : ((if ((KeptParams.ofConstructor c ctor).extras ++
          (KeptParams.ofConstructor c ctor).groupExtras).any fun p =>
            p.words.contains "key".toList then
            (KeptParams.ofConstructor c ctor).extras
          else "Key? key".toList :: (KeptParams.ofConstructor c ctor).extras) ++
          (KeptParams.ofConstructor c ctor).groupExtras).any
            (fun p => p.endsWith "super.key".toList) ↔
        c.PassesKey ctor := by
      have other : Text.endsWith "Key? key".toList "super.key".toList = false := by decide
      rw [ClassDecl.PassesKey, ← List.any_eq_true]
      split
      · rfl
      · rw [List.cons_append, List.any_cons, other, Bool.false_or]
    simp only [widget, ↓reduceIte, KeptParams.withKey, rest]
    by_cases drops : c.DropsSegment ctor segment
    · rw [if_pos drops, if_neg]
      rw [Bool.or_eq_true, has_trim_iff, passes, not_or]
      exact drops.2
    · rw [if_neg drops, if_pos]
      rw [Bool.or_eq_true, has_trim_iff, passes]
      by_contra neither
      rw [not_or] at neither
      exact drops ⟨widget, neither⟩
  · have stays : ¬ c.DropsSegment ctor segment := fun drops => widget drops.1
    rw [if_neg widget, if_neg stays, rest]

/-- The segment is kept exactly if it does not give way, or if it is all that is put
    in its place. -/
theorem keepsSegment_iff (isLead : IsLead lead) (label : IsLabel c.name)
    (found : c.ctor = some ctor) (complete : ctor.lastLine.isSome)
    (split : ctor.text = lead ++ (c.name ++ '(' :: (params ++ ')' :: segment)))
    (balanced : CtorParts.Balanced 1 params 1) {s : Surroundings} (blank : s.indent.isBlankText) :
    c.KeepsSegment ctor ((ConstructorPlan.ofClass s.style c).headText s.indent c.name)
        (constructorText s c) segment ↔
      (c.DropsSegment ctor segment →
        segment.ink = ";".toList ∨ segment.ink = ":super(key:key);".toList) := by
  classical
  have rest := rest_ofClass isLead label found complete split balanced
  have whole : (constructorText s c).ink =
      ((ConstructorPlan.ofClass s.style c).headText s.indent c.name).ink ++
        (KeptParams.ofClass c).rest.ink := by
    rw [constructorText, Text.ink_indentBlock blank, ConstructorPlan.ink_text]
    rfl
  rw [ClassDecl.KeepsSegment, whole, rest, List.append_assoc, List.append_cancel_left_eq,
    List.append_cancel_left_eq]
  by_cases drops : c.DropsSegment ctor segment
  · have key : Text.ink ": super(key: key);".toList = Text.ink ": super(key: key)".toList ++
        ";".toList := by
      decide
    have full : Text.ink ": super(key: key);".toList = ":super(key:key);".toList := by decide
    simp only [drops, if_pos, true_implies]
    constructor
    · rintro (same | ⟨-, -, -, same⟩)
      · exact .inr (same.symm.trans full)
      · rw [key, List.append_cancel_left_eq] at same
        exact .inl same.symm
    · rintro (same | same)
      · refine .inr ⟨drops.1, ?_, drops.2.2, ?_⟩
        · rw [same]
          decide
        · rw [key, same]
      · exact .inl (full.trans same.symm)
  · rw [if_neg drops, Text.ink_trim]
    exact iff_of_true (.inl rfl) fun given => absurd given drops

end Segment

end Dart

end ValueClass
