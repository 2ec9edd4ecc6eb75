import ValueClass.Proofs.Member.Pending
import ValueClass.Proofs.Member.Written

/-! # The lines of a method

A method is written as lines, perhaps with an override mark above them. Taking the
mark away leaves the lines, and indenting the text indents each of them.
-/

namespace ValueClass

namespace Text

theorem replaceGo_skip (old new a t : Text) :
    replaceGo old new a.length (a ++ t) = replaceGo old new 0 t := by
  induction a with
  | nil => rfl
  | cons c rest ih => exact ih

theorem replaceGo_eq_self {first : Char} {old t : Text} (new : Text) (h : first ∉ t) :
    replaceGo (first :: old) new 0 t = t := by
  induction t with
  | nil => rfl
  | cons c rest ih =>
      simp only [List.mem_cons, not_or] at h
      have apart : (first :: old).isPrefixOf (c :: rest) = false := by
        rw [List.isPrefixOf_cons_cons]
        simp [h.1]
      rw [replaceGo, apart]
      simp only [Bool.false_eq_true, ↓reduceIte]
      rw [ih h.2]

theorem replaceAll_front {first : Char} {old t : Text} (h : first ∉ t) :
    replaceAll (first :: old) [] (first :: old ++ t) = t := by
  have here : (first :: old).isPrefixOf (first :: (old ++ t)) = true :=
    List.isPrefixOf_iff_prefix.mpr ⟨t, rfl⟩
  rw [replaceAll, if_neg (by simp), List.cons_append, replaceGo, if_pos here, List.nil_append,
    List.length_cons, Nat.add_sub_cancel, replaceGo_skip, replaceGo_eq_self [] h]

theorem replaceAll_eq_self {first : Char} {old t : Text} (new : Text) (h : first ∉ t) :
    replaceAll (first :: old) new t = t := by
  rw [replaceAll, if_neg (by simp), replaceGo_eq_self new h]

end Text

namespace Dart

def markLine : Text := "@override"

theorem overrideMark_eq : Method.overrideMark = '@' :: "override\n".toList := rfl

/-- The text of a method in lines, below an override mark where it has one. -/
structure Layout (text : Text) (marked : Bool) (ls : List Text) : Prop where
  text_eq : text = (if marked then Method.overrideMark else []) ++ Text.unlines ls
  nonempty : ls ≠ []
  noFeed : ∀ line ∈ ls, '\n' ∉ line
  noMark : ∀ line ∈ ls, '@' ∉ line

namespace Layout

variable {text indent : Text} {marked : Bool} {ls : List Text}

theorem notMem_unlines {c : Char} {ls : List Text} (other : c ≠ '\n') (h : ∀ line ∈ ls, c ∉ line) :
    c ∉ Text.unlines ls := by
  induction ls with
  | nil => simp [Text.unlines, Text.join]
  | cons line rest ih =>
      cases rest with
      | nil => exact h line (by simp)
      | cons next more =>
          rw [Text.unlines_cons_cons, List.mem_append, List.mem_cons]
          rintro (member | rfl | member)
          · exact h line (by simp) member
          · exact other rfl
          · exact ih (fun l inside => h l (List.mem_cons_of_mem _ inside)) member

theorem unmarked (h : Layout text marked ls) :
    Text.replaceAll Method.overrideMark [] text = Text.unlines ls := by
  have none := notMem_unlines (by decide) h.noMark
  rw [h.text_eq, overrideMark_eq]
  cases marked with
  | false => exact Text.replaceAll_eq_self [] none
  | true => exact Text.replaceAll_front none

theorem lines_eq (h : Layout text marked ls) :
    text.lines = (if marked then [markLine] else []) ++ ls := by
  have below := Text.lines_unlines h.nonempty h.noFeed
  rw [h.text_eq]
  cases marked with
  | false => simpa using below
  | true =>
      show Text.lines ("@override".toList ++ '\n' :: Text.unlines ls) = markLine :: ls
      rw [Text.lines_append_feed, below, Text.lines_of_notMem (by decide)]
      rfl

theorem lines_indentBlock (h : Layout text marked ls) (noFeed : '\n' ∉ indent) :
    (Text.indentBlock indent text).lines =
      (if marked then [indent ++ markLine] else []) ++ ls.map (indented indent) := by
  have mark : indented indent markLine = indent ++ markLine := indented_of_solid (by decide) indent
  rw [Dart.lines_indentBlock noFeed, h.lines_eq, List.map_append]
  cases marked <;> simp [mark]

theorem memberText (h : Layout text marked ls) :
    Text.indentBlock indent (Text.replaceAll Method.overrideMark [] text) =
      Text.unlines (ls.map (indented indent)) := by
  rw [h.unmarked, Text.indentBlock, Text.lines_unlines h.nonempty h.noFeed]
  rfl

theorem lines_memberText (h : Layout text marked ls) (noFeed : '\n' ∉ indent) :
    (Text.indentBlock indent (Text.replaceAll Method.overrideMark [] text)).lines = ls.map
    (indented indent) := by
  rw [h.unmarked, Dart.lines_indentBlock noFeed, Text.lines_unlines h.nonempty h.noFeed]

end Layout

end Dart

end ValueClass
