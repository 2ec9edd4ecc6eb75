import ValueClass.Member.Constructor
import ValueClass.Proofs.Dart.Body
import ValueClass.Proofs.Text.Pieces

/-! # The text of a constructor

A constructor that the scanner found is a lead, the name of its class and a
parenthesis, and then its parameters. The lead is blank but for the word `const`, and a
name starts without blanks, so it is found behind the lead and nowhere before.
-/

namespace ValueClass

/-! ## Text in front -/

namespace Text

theorem trim_split (t : Text) : ∃ before after : Text,
    before.isBlankText ∧ after.isBlankText ∧ t = before ++ t.trim ++ after := by
  obtain ⟨after, blank, split⟩ := trimEnd_append_blank t.trimStart
  refine ⟨t.takeWhile isBlank, after, ?_, blank, ?_⟩
  · rw [isBlankText, List.all_takeWhile]
  · rw [List.append_assoc, trim, ← split, trimStart, List.takeWhile_append_dropWhile]

theorem trimStart_split (t : Text) :
    ∃ before : Text, before.isBlankText ∧ t = before ++ t.trimStart := by
  refine ⟨t.takeWhile isBlank, ?_, ?_⟩
  · rw [isBlankText, List.all_takeWhile]
  · rw [trimStart, List.takeWhile_append_dropWhile]

/-- A part that starts with a word and a mark is cut out where it stands, behind a text
    that ends in a blank and lacks the mark. -/
theorem cut?_behind {before word more rest : Text} {mark : Char}
    (open_ : ∀ start c, before = start ++ [c] → isBlank c) (lacks : mark ∉ before)
    (solid : ∀ c ∈ word, isBlank c = false) (closes : isBlank mark = false) :
    cut? (word ++ mark :: more) (before ++ (word ++ mark :: more ++ rest)) =
      some (before, rest) := by
  induction before with
  | nil =>
      have starts : (word ++ mark :: more).isPrefixOf (word ++ mark :: more ++ rest) := by
        rw [List.isPrefixOf_iff_prefix]
        exact List.prefix_append _ _
      have gone : (word ++ mark :: more ++ rest).drop (word ++ mark :: more).length = rest :=
        List.drop_left
      rw [List.nil_append]
      cases split : word ++ mark :: more ++ rest with
      | nil => simp at split
      | cons c tail => rw [cut?, ← split, if_pos starts, gone]
  | cons c tail ih =>
      -- The word has no blank, so the mark would have to stand in the text before it.
      have apart : (word ++ mark :: more).isPrefixOf
          (c :: tail ++ (word ++ mark :: more ++ rest)) = false := by
        rw [Bool.eq_false_iff, ne_eq, List.isPrefixOf_iff_prefix]
        intro starts
        have starts : word ++ [mark] <+: c :: tail ++ (word ++ mark :: more ++ rest) := by
          refine .trans ⟨more, ?_⟩ starts
          simp
        rcases List.prefix_or_prefix_of_prefix starts (List.prefix_append _ _) with inside | around
        · exact lacks (inside.subset (by simp))
        · rcases List.eq_nil_or_concat (c :: tail) with none | ⟨start, d, split⟩
          · simp at none
          · rw [List.concat_eq_append] at split
            have member : d ∈ word ++ [mark] := around.subset (by rw [split]; simp)
            have blank := open_ start d split
            rcases List.mem_append.mp member with member | member
            · simp [solid d member] at blank
            · rw [List.mem_singleton.mp member, closes] at blank
              cases blank
      have shorter : ∀ start d, tail = start ++ [d] → isBlank d :=
        fun start d split => open_ (c :: start) d (by rw [split]; rfl)
      rw [List.cons_append] at apart ⊢
      rw [cut?, apart, if_neg Bool.false_ne_true,
        ih shorter fun member => lacks (List.mem_cons_of_mem _ member)]
      rfl

theorem cut?_front (mark : Char) (t : Text) :
    ((cut? [mark] t).map (·.1)).getD t = t.takeWhile (· != mark) := by
  induction t with
  | nil => rfl
  | cons c rest ih =>
      by_cases same : c = mark
      · subst same
        simp [cut?]
      · have other : ([mark].isPrefixOf (c :: rest)) = false := by
          rw [List.isPrefixOf_cons_cons]
          simp [Ne.symm same]
        rw [cut?, other, List.takeWhile_cons_of_pos (by simpa using same), ← ih]
        cases cut? [mark] rest <;> rfl

/-- Text without blanks up to the first angle bracket. -/
def SolidStart (t : Text) : Prop :=
  ∃ word rest, t = word ++ rest ∧ (∀ c ∈ word, isBlank c = false ∧ c ≠ '<') ∧
    ∀ c more, rest = c :: more → c = '<' ∨ c = '>'

theorem SolidStart.cons {c : Char} {t : Text} (solid : isBlank c = false) (other : c ≠ '<')
    (h : SolidStart t) :
    SolidStart (c :: t) := by
  obtain ⟨word, rest, rfl, plain, angle⟩ := h
  refine ⟨c :: word, rest, rfl, ?_, angle⟩
  intro d member
  rcases List.mem_cons.mp member with rfl | member
  · exact ⟨solid, other⟩
  · exact plain d member

/-- Blanks separate tokens outside of angle brackets, so each token starts without. -/
theorem solidStart_of_mem_tail (t : Text) (depth : Int) :
    (∀ piece ∈ (splitAtDepth angleStep isBlank depth t).tail, SolidStart piece) ∧
      (depth = 0 → ∀ piece ∈ splitAtDepth angleStep isBlank depth t, SolidStart piece) := by
  have empty : SolidStart [] := ⟨[], [], rfl, by simp, by simp⟩
  induction t generalizing depth with
  | nil => exact ⟨by simp [splitAtDepth], by simpa [splitAtDepth] using fun _ => empty⟩
  | cons c rest ih =>
      by_cases cut : isBlank c && depth + angleStep c == 0
      · have level : depth + angleStep c = 0 := by
          simpa using (Bool.and_eq_true_iff.mp cut).2
        have all := (ih (depth + angleStep c)).2 level
        simp only [splitAtDepth, cut, ↓reduceIte, List.tail_cons, List.mem_cons, forall_eq_or_imp]
        exact ⟨all, fun _ => ⟨empty, all⟩⟩
      · have cut : (isBlank c && depth + angleStep c == 0) = false := by simpa using cut
        simp only [splitAtDepth, cut, Bool.false_eq_true, ↓reduceIte]
        obtain ⟨later, whole⟩ := ih (depth + angleStep c)
        cases pieces : splitAtDepth angleStep isBlank (depth + angleStep c) rest with
        | nil =>
            refine ⟨by simp [consFirst], ?_⟩
            intro zero piece member
            rw [consFirst, List.mem_singleton] at member
            subst member
            rw [zero, Int.zero_add] at pieces
            cases rest with
            | nil => simp [splitAtDepth] at pieces
            | cons d more =>
                rw [splitAtDepth] at pieces
                split at pieces
                · simp at pieces
                · cases step : splitAtDepth angleStep isBlank (angleStep c + angleStep d) more <;>
                    simp [consFirst, step] at pieces
        | cons first others =>
            rw [pieces] at later whole
            refine ⟨later, ?_⟩
            intro zero piece member
            rw [consFirst] at member
            rcases List.mem_cons.mp member with rfl | member
            · by_cases angle : c = '<' ∨ c = '>'
              · exact ⟨[], c :: first, rfl, by simp, fun d more same => by cases same; exact angle⟩
              · rw [not_or] at angle
                have step : angleStep c = 0 := by simp [angleStep, angle]
                have solid : isBlank c = false := by simpa [zero, step] using cut
                exact (whole (by rw [zero, step]; rfl) first (by simp)).cons solid angle.1
            · exact later piece member

theorem mem_of_mem_splitAtDepth {step : Char → Int} {cuts : Char → Bool} {t piece : Text}
    {depth : Int} (member : piece ∈ splitAtDepth step cuts depth t) : piece ⊆ t := by
  induction t generalizing depth piece with
  | nil =>
      rw [splitAtDepth, List.mem_singleton] at member
      rw [member]
      exact List.nil_subset _
  | cons c rest ih =>
      rw [splitAtDepth] at member
      split at member
      · rcases List.mem_cons.mp member with rfl | member
        · exact List.nil_subset _
        · exact List.subset_cons_of_subset _ (ih member)
      · cases pieces : splitAtDepth step cuts (depth + step c) rest with
        | nil =>
            rw [pieces, consFirst, List.mem_singleton] at member
            simp [member]
        | cons first others =>
            rw [pieces, consFirst] at member
            rcases List.mem_cons.mp member with rfl | member
            · exact List.cons_subset_cons _ (ih (by rw [pieces]; simp))
            · exact List.subset_cons_of_subset _ (ih (by rw [pieces]; simp [member]))

theorem solidStart_of_mem_tokens {t token : Text} (member : token ∈ tokens t) : SolidStart token :=
  (solidStart_of_mem_tail t 0).2 rfl token (List.mem_filter.mp member).1

end Text

namespace Dart

/-! ## Names -/

/-- How the name of a class starts, with a parenthesis behind it: without blanks, up to
    a mark. And it stands on one line. -/
def IsLabel (name : Text) : Prop :=
  '\n' ∉ name ∧ ∃ word mark more, name ++ "(".toList = word ++ mark :: more ∧
    (∀ c ∈ word, isBlank c = false ∧ c ≠ '<') ∧ (mark = '(' ∨ mark = '>')

theorem isLabel_of_solidStart {token : Text} (h : Text.SolidStart token) (noFeed : '\n' ∉ token) :
    IsLabel (token.takeWhile (· != '<')) := by
  refine ⟨fun member => noFeed ((List.takeWhile_prefix _).subset member), ?_⟩
  obtain ⟨word, rest, rfl, plain, angle⟩ := h
  have front : (word ++ rest).takeWhile (· != '<') = word ++ rest.takeWhile (· != '<') :=
    List.takeWhile_append_of_pos fun c member => by simpa using (plain c member).2
  rw [front]
  cases rest with
  | nil => exact ⟨word, '(', [], by simp, plain, .inl rfl⟩
  | cons c more =>
      rcases angle c more rfl with rfl | rfl
      · exact ⟨word, '(', [], by simp, plain, .inl rfl⟩
      · exact ⟨word, '>', more.takeWhile (· != '<') ++ ['('], by simp, plain, .inr rfl⟩

theorem isLabel_of_splitName {tokens : List Text}
    (each : ∀ token ∈ tokens, Text.SolidStart token ∧ '\n' ∉ token) {name generics : Text}
    {clauses : List Text} (h : Header.splitName tokens = some (name, generics, clauses)) :
    IsLabel name := by
  cases tokens with
  | nil => cases h
  | cons token rest =>
      obtain ⟨solid, noFeed⟩ := each token (by simp)
      have label := isLabel_of_solidStart solid noFeed
      rw [← Text.cut?_front] at label
      simp only [Header.splitName] at h
      split at h
      · rename_i before behind cut
        cases h
        have same : Text.cut? ['<'] token = some (name, behind) := cut
        rwa [same] at label
      · rename_i cut
        have same : Text.cut? ['<'] token = none := cut
        rw [same] at label
        split at h
        · split at h <;> (cases h; exact label)
        · cases h
          exact label

theorem isLabel_parse {line : Text} (noFeed : '\n' ∉ line) :
    IsLabel ((Header.parse line).name.getD []) := by
  have empty : IsLabel [] := ⟨by simp, [], '(', [], rfl, by simp, .inl rfl⟩
  have each : ∀ t : Text, '\n' ∉ t → ∀ token ∈ (Header.splitKeyword t.tokens).2,
      Text.SolidStart token ∧ '\n' ∉ token := by
    intro t whole token member
    have inside : token ∈ t.tokens := by
      simp only [Header.splitKeyword] at member
      split at member
      · exact ((List.drop_sublist _ _).trans (List.dropWhile_sublist _)).subset member
      · exact member
    exact ⟨Text.solidStart_of_mem_tokens inside,
      fun feed => whole (Text.mem_of_mem_splitAtDepth (List.mem_filter.mp inside).1 feed)⟩
  have trimmed : '\n' ∉ line.trim := by
    obtain ⟨before, after, -, -, split⟩ := Text.trim_split line
    rw [split] at noFeed
    simp only [List.mem_append, not_or] at noFeed
    exact noFeed.1.2
  have opened : '\n' ∉ Text.trimEnd line.trim.dropLast := by
    obtain ⟨blanks, -, split⟩ := Text.trimEnd_append_blank line.trim.dropLast
    intro feed
    apply trimmed
    apply List.dropLast_subset
    rw [split]
    exact List.mem_append_left _ feed
  simp only [Header.parse]
  split
  · exact empty
  · rename_i found
    refine isLabel_of_splitName (each _ ?_) found
    split
    · exact opened
    · exact trimmed

theorem isLabel_of_mem_scan {text : Text} {c : ClassDecl} (member : c ∈ scan text) :
    IsLabel c.name := by
  obtain ⟨seen, below, o, split, label, reported⟩ :=
    mem_scanFrom (fun read o => (∀ line ∈ read, '\n' ∉ line) → IsLabel o.decl.name)
      (fun _ line _ whole => isLabel_parse (whole line (by simp)))
      (fun _ o previous line label _ whole => by
        rw [OpenClass.readLine_name]
        exact label fun l inside => whole l (by simp [inside])) [] (by simp) member
  have whole : ∀ line ∈ seen, '\n' ∉ line := by
    intro line inside
    rw [List.nil_append] at split
    exact Text.notMem_of_mem_lines (t := text) (by rw [split]; simp [inside])
  rcases reported with rfl | ⟨-, rfl⟩ <;> exact label whole

theorem IsLabel.trimStart {name : Text} (h : IsLabel name) (rest : Text) :
    Text.trimStart (name ++ '(' :: rest) = name ++ '(' :: rest := by
  obtain ⟨-, word, mark, more, split, solid, marks⟩ := h
  have whole : name ++ '(' :: rest = word ++ mark :: (more ++ rest) := by
    have := congrArg (· ++ rest) split
    simpa using this
  rw [whole]
  cases word with
  | nil =>
      apply Text.trimStart_cons
      rcases marks with rfl | rfl <;> decide
  | cons c tail => exact Text.trimStart_cons (solid c (by simp)).1 _

/-- What can stand before the name in a constructor: blanks, and perhaps `const`. -/
def IsLead (lead : Text) : Prop :=
  lead.isBlankText ∨
    ∃ before after : Text, before.isBlankText ∧ after.isBlankText ∧
      lead = before ++ "const ".toList ++ after

theorem IsLead.ends {lead : Text} (h : IsLead lead) :
    ∀ start c, lead = start ++ [c] → isBlank c := by
  have last : ∀ blanks : Text, blanks.isBlankText → ∀ front start c,
      front ++ ' ' :: blanks = start ++ [c] → isBlank c := by
    intro blanks blank front start c same
    have member : c ∈ ' ' :: blanks := by
      have := congrArg List.getLast? same
      rw [List.getLast?_append_of_ne_nil _ (by simp), List.getLast?_concat] at this
      exact List.mem_of_getLast? this
    rcases List.mem_cons.mp member with rfl | member
    · rfl
    · exact List.all_eq_true.mp blank c member
  rintro start c rfl
  rcases h with blank | ⟨before, after, -, blank, split⟩
  · exact List.all_eq_true.mp blank c (by simp)
  · refine last after blank (before ++ "const".toList) start c ?_
    rw [split]
    simp

theorem IsLead.lacks {lead : Text} (h : IsLead lead) {mark : Char}
    (marks : mark = '(' ∨ mark = '>') :
    mark ∉ lead := by
  have solid : isBlank mark = false := by rcases marks with rfl | rfl <;> decide
  have blanks : ∀ t : Text, t.isBlankText → mark ∉ t := by
    intro t blank member
    simp [List.all_eq_true.mp blank _ member] at solid
  rcases h with blank | ⟨before, after, first, second, rfl⟩
  · exact blanks lead blank
  · have word : mark ∉ "const ".toList := by rcases marks with rfl | rfl <;> decide
    rw [List.mem_append, List.mem_append, not_or, not_or]
    exact ⟨⟨blanks before first, word⟩, blanks after second⟩

/-- The line that opens a constructor is a lead, the name and a parenthesis. -/
theorem Line.split_of_opensConstructor {line className : Text}
    (h : Line.opensConstructor line className) :
    ∃ lead after, IsLead lead ∧ line = lead ++ (className ++ '(' :: after) := by
  obtain ⟨before, behind, left, right, split⟩ := Text.trim_split line
  have found : ∀ t : Text, Text.startsWith t (className ++ "(".toList) →
      ∃ after, t = className ++ '(' :: after := by
    intro t starts
    obtain ⟨after, rfl⟩ := List.isPrefixOf_iff_prefix.mp starts
    exact ⟨after, by simp⟩
  simp only [Line.opensConstructor] at h
  cases start : Text.dropStart? "const ".toList line.trim with
  | none =>
      rw [start, Option.map_none, Option.getD_none] at h
      obtain ⟨after, same⟩ := found _ h
      exact ⟨before, after ++ behind, .inl left, by rw [split, same]; simp⟩
  | some rest =>
      rw [start, Option.map_some, Option.getD_some] at h
      obtain ⟨after, same⟩ := found _ h
      obtain ⟨gap, blank, rest_split⟩ := Text.trimStart_split rest
      refine ⟨before ++ "const ".toList ++ gap, after ++ behind,
        .inr ⟨before, gap, left, blank, rfl⟩, ?_⟩
      rw [split, Text.dropStart?_eq_some.mp start, rest_split, same]
      simp

theorem ctor_split {text : Text} {c : ClassDecl} (member : c ∈ scan text) {ctor : Constructor}
    (found : c.ctor = some ctor) :
    ∃ lead after, IsLead lead ∧ ctor.text = lead ++ (c.name ++ '(' :: after) := by
  obtain ⟨line, more, lines, opening⟩ := opensConstructor_of_mem_scan member found
  obtain ⟨lead, after, isLead, split⟩ := Line.split_of_opensConstructor opening
  cases more with
  | nil => exact ⟨lead, after, isLead, by rw [lines, Text.unlines_singleton, split]⟩
  | cons next rest =>
      refine ⟨lead, after ++ '\n' :: Text.unlines (next :: rest), isLead, ?_⟩
      rw [lines, Text.unlines_cons_cons, split]
      simp

theorem startsWith_brace_iff (name t : Text) :
    Text.startsWith (name ++ '(' :: Text.trimEnd t) (name ++ "(\x7b".toList) ↔
      ∃ rest, t = '\x7b' :: rest := by
  rw [Text.startsWith, List.isPrefixOf_iff_prefix, List.prefix_append_right_inj]
  show ['(', '\x7b'] <+: '(' :: Text.trimEnd t ↔ _
  rw [List.cons_prefix_cons]
  obtain ⟨blanks, blank, whole⟩ := Text.trimEnd_append_blank t
  constructor
  · rintro ⟨-, rest, same⟩
    exact ⟨rest ++ blanks, by rw [whole, ← same]; rfl⟩
  · rintro ⟨rest, rfl⟩
    have := Text.trimEnd_append_cons (show isBlank '\x7b' = false by decide) [] rest
    rw [List.nil_append, List.nil_append] at this
    exact ⟨rfl, Text.trimEnd rest, by rw [this]; rfl⟩

theorem dropStart?_const_eq_none {name : Text} (other : ¬ "const".toList <+: name) (t : Text) :
    Text.dropStart? "const".toList (name ++ '(' :: t) = none := by
  rw [Option.eq_none_iff_forall_ne_some]
  intro rest same
  have starts : "const".toList <+: name ++ '(' :: t :=
    ⟨rest, (Text.dropStart?_eq_some.mp same).symm⟩
  rcases List.prefix_or_prefix_of_prefix starts (List.prefix_append _ _) with inside | around
  · exact other inside
  · obtain ⟨tail, word⟩ := around
    rw [← word, List.prefix_append_right_inj] at starts
    cases tail with
    | nil => exact other ⟨[], by simpa using word.symm⟩
    | cons d more =>
        obtain ⟨rfl, -⟩ := List.cons_prefix_cons.mp starts
        have : '(' ∈ "const".toList := by rw [← word]; simp
        exact absurd this (by decide)

section Cut

variable {name lead after : Text} (isLead : IsLead lead) (label : IsLabel name)

include isLead label

theorem cut?_ctor :
    Text.cut? (name ++ "(".toList) (lead ++ (name ++ '(' :: after)) = some (lead, after) := by
  obtain ⟨-, word, mark, more, split, solid, marks⟩ := label
  have whole : name ++ '(' :: after = word ++ mark :: more ++ after := by
    rw [← split]
    simp
  have closes : isBlank mark = false := by rcases marks with rfl | rfl <;> decide
  rw [split, whole]
  exact Text.cut?_behind isLead.ends (isLead.lacks marks)
    (fun c member => (solid c member).1) closes

/-- Without its lead a constructor is its name and its list, unless the name could be taken
    for `const`. -/
theorem withoutConst_ctor (other : ¬ "const".toList <+: name) :
    let trimmed := Text.trim (lead ++ (name ++ '(' :: after))
    ((Text.dropStart? "const".toList trimmed).map Text.trimStart).getD trimmed =
    name ++ '(' :: Text.trimEnd after := by
  have parenSolid : isBlank '(' = false := by decide
  rcases isLead with blank | ⟨before, gap, left, right, rfl⟩
  · have trimmed : Text.trim (lead ++ (name ++ '(' :: after)) =
        name ++ '(' :: Text.trimEnd after := by
      rw [Text.trim, Text.trimStart_append_of_blank blank, label.trimStart,
        Text.trimEnd_append_cons parenSolid]
    simp only [trimmed, dropStart?_const_eq_none other, Option.map_none, Option.getD_none]
  · have trimmed : Text.trim (before ++ "const ".toList ++ gap ++ (name ++ '(' :: after)) =
        "const".toList ++ (' ' :: gap ++ (name ++ '(' :: Text.trimEnd after)) := by
      have solidFront : isBlank 'c' = false := by decide
      rw [Text.trim, List.append_assoc, List.append_assoc, Text.trimStart_append_of_blank left]
      have front : Text.trimStart ("const ".toList ++ (gap ++ (name ++ '(' :: after))) =
          "const ".toList ++ (gap ++ (name ++ '(' :: after)) := Text.trimStart_cons solidFront _
      have paren := Text.trimEnd_append_cons parenSolid ("const ".toList ++ gap ++ name) after
      simp only [List.append_assoc] at paren
      rw [front, paren]
      rfl
    have word : Text.dropStart? "const".toList
        ("const".toList ++ (' ' :: gap ++ (name ++ '(' :: Text.trimEnd after))) =
          some (' ' :: gap ++ (name ++ '(' :: Text.trimEnd after)) :=
            Text.dropStart?_eq_some.mpr rfl
    have gapBlank : Text.isBlankText (' ' :: gap) := by
      rw [Text.isBlankText, List.all_cons]
      exact right
    simp only [trimmed]
    rw [word, Option.map_some, Option.getD_some, Text.trimStart_append_of_blank gapBlank,
      label.trimStart]

theorem hasNamedConstructor_iff {c : ClassDecl} {ctor : Constructor} (found : c.ctor = some ctor)
    (split : ctor.text = lead ++ (name ++ '(' :: after)) (own : c.name = name)
    (other : ¬ "const".toList <+: name) :
    c.hasNamedConstructor ↔ ∃ rest, after = '\x7b' :: rest := by
  simp only [ClassDecl.hasNamedConstructor, found, split, own]
  rw [withoutConst_ctor isLead label other]
  exact startsWith_brace_iff name after

end Cut

end Dart

end ValueClass
