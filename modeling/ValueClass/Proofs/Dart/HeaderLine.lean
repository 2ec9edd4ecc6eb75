import ValueClass.Dart.Header
import ValueClass.Proofs.Text.Pieces

/-! # Lines that open no class

A header starts with an annotation, a modifier or the keyword, and a blank
follows the word. So a line is no header when it starts with another word, or
when something other than a blank follows its first word, or when the keyword is
not among its words.
-/

namespace ValueClass.Dart.Header

def openers : List Text :=
  "class".toList :: modifierWords

theorem skipAll_eq_self {step : Text → Option Text} {t : Text} (h : step t = none) (fuel : Nat) :
    skipAll step fuel t = t := by
  cases fuel with
  | zero => rfl
  | succ fuel => simp [skipAll, h]

theorem isWordChar_of_mem_openers {word : Text} (h : word ∈ openers) :
    ∀ c ∈ word, isWordChar c := by
  have listed : ∀ word ∈ openers, ∀ c ∈ word, isWordChar c := by decide +kernel
  exact listed word h

/-- A word that is taken off the front together with a blank is the first word. -/
theorem firstWord_of_afterBlanks {word t rest : Text} (opener : word ∈ openers)
    (h : (Text.dropStart? word t).bind afterBlanks? = some rest) :
    Text.firstWord t = word ∧ ∃ c tail, t = word ++ c :: tail ∧ isBlank c := by
  obtain ⟨behind, dropped, blanks⟩ := Option.bind_eq_some_iff.mp h
  simp only [Text.dropStart?] at dropped
  split at dropped
  · rename_i starts
    cases dropped
    obtain ⟨tail, rfl⟩ := List.isPrefixOf_iff_prefix.mp starts
    rw [List.drop_left] at blanks
    cases tail with
    | nil => simp [afterBlanks?] at blanks
    | cons c tail =>
        simp only [afterBlanks?] at blanks
        split at blanks
        · rename_i blank
          refine ⟨Text.firstWord_eq (isWordChar_of_mem_openers opener) ?_, c, tail, rfl, blank⟩
          intro d rest same
          cases same
          exact isWordChar_of_isBlank blank
        · simp at blanks
  · simp at dropped

/-- A line that starts with a word opens no class, unless the word can open one
    and a blank follows it. -/
theorem isHeader_eq_false {line w rest : Text} (split : line.trimStart = w ++ rest)
    (word : ∀ c ∈ w, isWordChar c) (stop : ∀ c tail, rest = c :: tail → isWordChar c = false)
    (plain : w ∉ openers ∨ ∀ c tail, rest = c :: tail → isBlank c = false)
    (unmarked : ∀ tail, w ++ rest ≠ '@' :: tail) : isHeader line = false := by
  have noOpener : ∀ opener ∈ openers,
      (Text.dropStart? opener (w ++ rest)).bind afterBlanks? = none := by
    intro opener member
    rw [Option.eq_none_iff_forall_not_mem]
    intro behind found
    obtain ⟨first, c, tail, same, blank⟩ := firstWord_of_afterBlanks member found
    rw [Text.firstWord_eq word stop] at first
    subst first
    rcases plain with other | glued
    · exact other member
    · have := glued c tail (List.append_cancel_left same)
      simp [this] at blank
  have annotated : afterAnnotation? (w ++ rest) = none := by
    cases front : w ++ rest with
    | nil => rfl
    | cons c tail =>
        have : c ≠ '@' := by
          rintro rfl
          exact unmarked tail front
        simp [afterAnnotation?, this]
  have modified : afterModifier? (w ++ rest) = none := by
    rw [afterModifier?, List.findSome?_eq_none_iff]
    intro modifier member
    exact noOpener modifier (List.mem_cons_of_mem _ member)
  have keyword : (Text.dropStart? "class".toList (w ++ rest)).bind afterBlanks? = none :=
    noOpener _ (List.mem_cons_self)
  simp only [isHeader, split, skipAll_eq_self annotated, skipAll_eq_self modified, keyword]

theorem isHeader_eq_false_of_head {line : Text}
    (h : ∀ c rest, line.trimStart = c :: rest → c ≠ '@' ∧ isWordChar c = false) :
    isHeader line = false := by
  have empty : ([] : Text) ∉ openers := by decide
  refine isHeader_eq_false (show line.trimStart = [] ++ line.trimStart from rfl) (by simp) ?_
    (.inl empty) ?_
  · intro c tail same
    exact (h c tail same).2
  · intro tail same
    exact (h '@' tail same).1 rfl

theorem isHeader_eq_false_of_firstWord {line : Text}
    (other : Text.firstWord line.trim ∉ openers) (first : Text.firstWord line.trim ≠ []) :
    isHeader line = false := by
  rw [Text.trim, Text.firstWord_trimEnd] at other first
  have front : line.trimStart =
      Text.firstWord line.trimStart ++ line.trimStart.dropWhile isWordChar :=
    (List.takeWhile_append_dropWhile).symm
  refine isHeader_eq_false front ?_ ?_ (.inl other) ?_
  · exact List.all_eq_true.mp List.all_takeWhile
  · intro c tail same
    have := List.head?_dropWhile_not isWordChar line.trimStart
    simpa [same] using this
  · intro tail same
    rw [← front] at same
    rw [same] at first
    have noWord : isWordChar '@' = false := by decide
    exact first (by simp [Text.firstWord, noWord])

/-! ## The words of a header -/

theorem words_trimStart (t : Text) : t.trimStart.words = t.words := by
  induction t with
  | nil => rfl
  | cons c rest ih =>
      by_cases blank : isBlank c
      · rw [Text.trimStart_cons_of_blank blank, ih]
        exact (Text.words_append (isWordChar_of_isBlank blank) [] rest).symm
      · rw [Text.trimStart_cons (by simpa using blank)]

theorem words_afterBlanks {t rest : Text} (h : afterBlanks? t = some rest) :
    rest.words = t.words := by
  cases t with
  | nil => simp [afterBlanks?] at h
  | cons c tail =>
      simp only [afterBlanks?] at h
      split at h
      · rename_i blank
        cases h
        rw [words_trimStart]
        exact (Text.words_append (isWordChar_of_isBlank blank) [] tail).symm
      · simp at h

theorem words_dropWhile {keep : Char → Bool} (kept : ∀ c, isWordChar c → keep c) (t : Text) :
    Text.words (t.dropWhile keep) ⊆ t.words := by
  have split := List.takeWhile_append_dropWhile (p := keep) (l := t)
  have stop := List.head?_dropWhile_not keep t
  cases behind : t.dropWhile keep with
  | nil => simp
  | cons c tail =>
      rw [behind] at split stop
      have breaks : isWordChar c = false := by
        by_contra word
        have := kept c (by simpa using word)
        simp [this] at stop
      rw [← split, Text.words_append breaks]
      have : Text.words (c :: tail) = Text.words tail := Text.words_append breaks [] tail
      rw [this]
      exact List.subset_append_right _ _

theorem words_afterArguments {t rest : Text} (h : afterArguments? t = some rest) :
    rest.words ⊆ t.words := by
  unfold afterArguments? at h
  split at h
  · rename_i tail
    split at h
    · rename_i c after close
      cases h
      have whole := List.takeWhile_append_dropWhile (p := fun c => c != ')') (l := tail)
      have stop := List.head?_dropWhile_not (fun c => c != ')') tail
      rw [close] at whole stop
      have stop : c = ')' := by simpa using stop
      rw [← whole, stop]
      rw [show '(' :: (tail.takeWhile (fun c => c != ')') ++ ')' :: rest) =
        ('(' :: tail.takeWhile (fun c => c != ')')) ++ ')' :: rest by simp,
        Text.words_append (by decide)]
      exact List.subset_append_right _ _
    · simp at h
  · cases h
    exact List.Subset.refl _

theorem words_afterAnnotation {t rest : Text} (h : afterAnnotation? t = some rest) :
    rest.words ⊆ t.words := by
  unfold afterAnnotation? at h
  split at h
  · rename_i tail
    dsimp only at h
    split at h
    · obtain ⟨behind, arguments, blanks⟩ := Option.bind_eq_some_iff.mp h
      rw [words_afterBlanks blanks]
      have mark : Text.words ('@' :: tail) = Text.words tail :=
        Text.words_append (by decide) [] tail
      rw [mark]
      refine List.Subset.trans (words_afterArguments arguments) (words_dropWhile ?_ tail)
      intro c word
      simp [word]
    · simp at h
  · simp at h

theorem words_afterWord {word t rest : Text} (opener : word ∈ openers)
    (h : (Text.dropStart? word t).bind afterBlanks? = some rest) :
    t.words = word :: rest.words := by
  obtain ⟨behind, dropped, blanks⟩ := Option.bind_eq_some_iff.mp h
  obtain ⟨-, c, tail, rfl, blank⟩ := firstWord_of_afterBlanks opener h
  have rest_ : behind = c :: tail := by
    simp only [Text.dropStart?] at dropped
    split at dropped
    · simpa using dropped.symm
    · simp at dropped
  have some_ : word ≠ [] := by
    rintro rfl
    exact absurd opener (by decide)
  rw [words_afterBlanks blanks, rest_, Text.words_append (isWordChar_of_isBlank blank),
    Text.words_of_forall (isWordChar_of_mem_openers opener) some_]
  exact congrArg (word :: ·) (Text.words_append (isWordChar_of_isBlank blank) [] tail).symm

theorem words_skipAll {step : Text → Option Text}
    (shrinks : ∀ t rest, step t = some rest → rest.words ⊆ t.words) (fuel : Nat) (t : Text) :
    (skipAll step fuel t).words ⊆ t.words := by
  induction fuel generalizing t with
  | zero => exact List.Subset.refl _
  | succ fuel ih =>
      rw [skipAll]
      split
      · rename_i rest taken
        exact List.Subset.trans (ih rest) (shrinks t rest taken)
      · exact List.Subset.refl _

theorem class_mem_words {line : Text} (h : isHeader line) : "class".toList ∈ line.words := by
  have modified : ∀ t rest, afterModifier? t = some rest → rest.words ⊆ t.words := by
    intro t rest taken
    rw [afterModifier?] at taken
    obtain ⟨word, member, taken⟩ := List.exists_of_findSome?_eq_some taken
    rw [words_afterWord (List.mem_cons_of_mem _ member) taken]
    exact List.subset_cons_self _ _
  simp only [isHeader] at h
  split at h
  · rename_i c tail keyword
    have here := words_afterWord List.mem_cons_self keyword
    have inside := List.Subset.trans (words_skipAll modified line.length _)
      (words_skipAll (fun _ _ => words_afterAnnotation) line.length line.trimStart)
    rw [words_trimStart] at inside
    exact inside (here ▸ List.mem_cons_self)
  · simp at h

end ValueClass.Dart.Header
