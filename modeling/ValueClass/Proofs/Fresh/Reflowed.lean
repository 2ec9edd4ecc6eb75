import ValueClass.Proofs.Fresh.Stands

/-! # Methods with other line breaks

Only the blanks of a method change: its tokens stay, and so do its string literals. Then
it stands as a method again, as long as its lines are broken where the line-based search
can follow: the mark stays on a line above, the signature on one line with the brace or the
arrow, and no line below reads by itself as the start of something else.
-/

namespace ValueClass.Dart

open Fresh

/-! ## Changes of blanks -/

/-- Lines that differ in blanks only, over all and outside of string literals. -/
structure Respaced (old new : List Text) : Prop where
  ink : Text.sameInk (Text.unlines new) (Text.unlines old)
  code : Text.sameInk (Text.unlines (new.map Line.blankStrings))
    (Text.unlines (old.map Line.blankStrings))

namespace Respaced

theorem count_ink {c : Char} (solid : isBlank c = false) (t : Text) :
    t.ink.count c = t.count c := by
  rw [Text.ink, List.count_filter (by simpa using solid)]

theorem count_unlines {c : Char} (solid : isBlank c = false) (ls : List Text) :
    (Text.unlines ls).ink.count c = ls.flatten.count c := by
  rw [Text.ink_unlines]
  induction ls with
  | nil => rfl
  | cons line rest ih =>
      rw [List.flatMap_cons, List.flatten_cons, List.count_append, List.count_append, ih,
        count_ink solid]

theorem count_blankStrings_le {c : Char} (other : c ≠ '\'') (t : Text) :
    (Line.blankStrings t).count c ≤ t.count c := by
  fun_induction Line.blankStrings t with
  | case1 => simp
  | case2 d rest quote after found ih =>
      have inside := (Line.afterLiteral?_suffix found).sublist.count_le c
      have outer := List.count_le_count_cons (l := rest) (a := c) (b := d)
      have same : (('\'' :: '\'' :: Line.blankStrings after) : Text).count c =
          (Line.blankStrings after).count c := by
        rw [List.count_cons_of_ne (Ne.symm other), List.count_cons_of_ne (Ne.symm other)]
      omega
  | case3 d rest _ _ ih | case4 d rest _ ih =>
      rw [List.count_cons, List.count_cons]
      omega

theorem count_flatten_le_and_eq {f : Text → Text} {c : Char} {ls : List Text}
    (le : ∀ line ∈ ls, (f line).count c ≤ line.count c) :
    (ls.map f).flatten.count c ≤ ls.flatten.count c ∧
      ((ls.map f).flatten.count c = ls.flatten.count c →
        ∀ line ∈ ls, (f line).count c = line.count c) := by
  induction ls with
  | nil => simp
  | cons first rest ih =>
      have here := le first (by simp)
      obtain ⟨below, each⟩ := ih fun line member => le line (List.mem_cons_of_mem _ member)
      simp only [List.map_cons, List.flatten_cons, List.count_append]
      refine ⟨by omega, fun same line member => ?_⟩
      rcases List.mem_cons.mp member with rfl | member
      · omega
      · exact each (by omega) line member

variable {old new : List Text}

theorem hidesNoBrace (spaced : Respaced old new) (shown : ∀ line ∈ old, Line.HidesNoBrace line) :
    ∀ line ∈ new, Line.HidesNoBrace line := by
  intro line member c brace
  have solid : isBlank c = false := by rcases brace with rfl | rfl <;> decide
  have other : c ≠ '\'' := by rcases brace with rfl | rfl <;> decide
  have raw : new.flatten.count c = old.flatten.count c := by
    rw [← count_unlines solid, ← count_unlines solid, eq_of_beq spaced.ink]
  have code : (new.map Line.blankStrings).flatten.count c =
      (old.map Line.blankStrings).flatten.count c := by
    rw [← count_unlines solid, ← count_unlines solid, eq_of_beq spaced.code]
  have before : (old.map Line.blankStrings).flatten.count c = old.flatten.count c := by
    rw [List.count_flatten, List.count_flatten, List.map_map]
    congr 1
    exact List.map_congr_left fun l inside => shown l inside c brace
  exact (count_flatten_le_and_eq fun l _ => count_blankStrings_le other l).2
    (by rw [code, before, raw]) line member

end Respaced

/-! ## Where lines may be broken -/

/-- A block below each other: its first line opens one brace, and none of the lines before
    the last closes it again. -/
structure IsBlock (className first : Text) (more : List Text) : Prop where
  opens : Line.braces first = 1
  noArrow : first.has "=>" = false
  unnamed : Line.opensConstructor first className = false
  deep : ∀ n < more.length, 2 ≤ depthBehind 1 (first :: more.take n)

/-- An expression behind an arrow: the arrow stands on the first line, the semicolon ends
    the last line and no other, and none of the lines reads as a field or a constructor. -/
structure IsArrow (className first : Text) (more : List Text) : Prop where
  arrow : first.has "=>"
  noBrace : ∀ line ∈ first :: more, ∀ c ∈ line, c ≠ '\x7b' ∧ c ≠ '\x7d'
  ends : ∃ front last, first :: more = front ++ [last] ∧ last.trimEnd.endsWith ";" ∧
    ∀ line ∈ front, line.trimEnd.endsWith ";" = false
  plain : ∀ line ∈ first :: more, Line.opensConstructor line className = false ∧
    ¬ Line.ShowsField line className

/-- Lines on which a method is found again: nothing but the mark stands above the signature,
    the first line holds the signature with the brace or the arrow behind it, no line reads
    as the header of a class, and none below the first starts like another method. -/
structure Reflowed (className : Text) (kind : MemberKind) (above : List Text) (first : Text)
    (more : List Text) : Prop where
  mark : (above.map Text.ink).filter (fun ink => !ink.isEmpty) = if isMarked kind then [markLine]
    else []
  body : IsBlock className first more ∨ IsArrow className first more
  classless : ∀ line ∈ above ++ first :: more, "class".toList ∉ line.words
  unlike : ∀ line ∈ more, ∀ other, other ≠ .constructor → other ≠ kind → ¬ Like className other line

/-! ## Standing again -/

theorem depthBehind_ink (depth : Int) (ls : List Text) :
    depthBehind depth ls = depth + Line.braces (ls.flatMap Text.ink) := by
  have inked : ∀ t : Text, Line.braces t.ink = Line.braces t := by
    intro t
    rw [Line.braces, Line.braces, Respaced.count_ink (by decide), Respaced.count_ink (by decide)]
  induction ls generalizing depth with
  | nil => simp [Line.braces]
  | cons line rest ih =>
      rw [depthBehind_cons, ih, List.flatMap_cons, Line.braces_append, inked]
      omega

namespace ClassDecl

theorem deep_of_depth {depth : Int} {ls : List Text}
    (each : ∀ line ∈ ls, Line.HidesNoBrace line ∧ Header.isHeader line = false)
    (inside : ∀ n < ls.length, 2 ≤ depthBehind depth (ls.take (n + 1))) :
    Deep depth ls (depthBehind depth ls) := by
  induction ls generalizing depth with
  | nil => rfl
  | cons line rest ih =>
      obtain ⟨hides, noHeader⟩ := each line (by simp)
      have here := inside 0 (by simp)
      refine ⟨⟨hides, noHeader, by simpa using here⟩,
        ih (fun l member => each l (List.mem_cons_of_mem _ member)) ?_⟩
      intro n lt
      simpa using inside (n + 1) (by simpa using lt)

theorem takeMember_expression {depth : Int} {front : List Text} {last : Text}
    (ends : last.trimEnd.endsWith ";")
    (goesOn : ∀ line ∈ front, line.trimEnd.endsWith ";" = false) (lineNo : Nat) :
    takeMember true depth lineNo (front ++ [last]) = some
      (lineNo + front.length, front ++ [last]) := by
  induction front generalizing depth lineNo with
  | nil => simpa [takeMember, endsMember] using ends
  | cons line rest ih =>
      rw [List.cons_append, takeMember]
      simp only [endsMember, goesOn line (by simp), Bool.false_eq_true, ↓reduceIte]
      rw [ih fun l member => goesOn l (List.mem_cons_of_mem _ member), Option.map_some,
        List.length_cons, show lineNo + 1 + rest.length = lineNo + (rest.length + 1) by omega]

end ClassDecl

variable {className first : Text} {kind : MemberKind} {above more : List Text}

theorem isHeader_of_classless {line : Text} (classless : "class".toList ∉ line.words) :
    Header.isHeader line = false := by
  rw [Bool.eq_false_iff]
  exact fun header => classless (Header.class_mem_words header)

theorem not_showsField_of_closing {line : Text} (hides : Line.HidesNoBrace line)
    (slash : '/' ∉ line) (closes : Line.braces line < 0) : ¬ Line.ShowsField line className := by
  have inside : '\x7d' ∈ Line.blankStrings line := by
    rw [← List.count_pos_iff, hides _ (.inr rfl)]
    rw [Line.braces] at closes
    omega
  obtain ⟨before, behind, split⟩ := List.append_of_mem inside
  intro shows
  refine shows.unmarked "\x7d" (by decide) ?_
  rw [Line.code_eq slash]
  exact Text.infix_trim ⟨before, behind, by rw [split]; simp⟩ (by decide)

/-- The lines of a block declare nothing, and the search for its end takes them. -/
theorem IsBlock.stands (block : IsBlock className first more)
    (shown : ∀ line ∈ first :: more, Line.HidesNoBrace line)
    (classless : ∀ line ∈ first :: more, "class".toList ∉ line.words)
    (slash : ∀ line ∈ first :: more, '/' ∉ line) (level : depthBehind 1 (first :: more) = 1) :
    Quiet className 1 (first :: more) 1 ∧
      ClassDecl.takeMember (first.has "=>") 1 0 (first :: more) =
        some (more.length, first :: more) := by
  have opened : ∀ ls, depthBehind 1 (first :: ls) = depthBehind 2 ls := by
    intro ls
    rw [depthBehind_cons, block.opens]
    rfl
  rw [opened] at level
  rcases List.eq_nil_or_concat' more with rfl | ⟨inner, last, rfl⟩
  · cases level
  have each : ∀ line ∈ inner, Line.HidesNoBrace line ∧ Header.isHeader line = false :=
    fun line member =>
    ⟨shown line (by simp [member]), isHeader_of_classless (classless line (by simp [member]))⟩
  have deep : ClassDecl.Deep 2 inner (depthBehind 2 inner) := by
    refine ClassDecl.deep_of_depth each fun n lt => ?_
    have here := block.deep (n + 1) (by rw [List.length_append, List.length_singleton]; omega)
    rwa [opened, List.take_append_of_le_length lt] at here
  have before : 2 ≤ depthBehind 2 inner := by
    have here := block.deep inner.length (by rw [List.length_append, List.length_singleton]; omega)
    rwa [opened, List.take_left] at here
  rw [depthBehind_append, depthBehind_cons, depthBehind_nil] at level
  have start : QuietLine className 1 first :=
    ⟨shown first (by simp),
      isHeader_of_classless (classless first (by simp)), by rw [block.opens]; decide,
      fun _ => block.unnamed, fun back => absurd back (by rw [block.opens]; decide)⟩
  have closing : QuietLine className (depthBehind 2 inner) last := by
    refine ⟨shown last (by simp), isHeader_of_classless (classless last (by simp)), by omega,
      fun one => by omega, fun _ => ?_⟩
    exact not_showsField_of_closing (shown last (by simp)) (slash last (by simp)) (by omega)
  refine ⟨⟨start, ?_⟩, ?_⟩
  · rw [block.opens]
    exact (deep.quiet (by decide) className).append ⟨closing, level⟩
  · have goes : ClassDecl.endsMember false (1 + Line.braces first) first = false := by
      rw [block.opens]
      rfl
    rw [block.noArrow, ClassDecl.takeMember]
    simp only [goes, Bool.false_eq_true, ↓reduceIte]
    rw [block.opens, show (1 + 1 : Int) = 2 from rfl,
      ClassDecl.takeMember_deep deep level (0 + 1) [], Option.map_some, List.length_append,
      List.length_singleton, show 0 + 1 + inner.length = inner.length + 1 by omega]

/-- So do the lines of an expression. -/
theorem IsArrow.stands (expression : IsArrow className first more)
    (classless : ∀ line ∈ first :: more, "class".toList ∉ line.words) :
    Quiet className 1 (first :: more) 1 ∧
      ClassDecl.takeMember (first.has "=>") 1 0 (first :: more) =
        some (more.length, first :: more) := by
  constructor
  · have quiet : ∀ ls, (∀ line ∈ ls, line ∈ first :: more) → Quiet className 1 ls 1 := by
      intro ls inside
      induction ls with
      | nil => rfl
      | cons line rest ih =>
          have member := inside line (by simp)
          have bare := expression.noBrace line member
          have level : Line.braces line = 0 := Line.braces_eq_zero bare
          obtain ⟨noConstructor, noField⟩ := expression.plain line member
          refine ⟨⟨?_, isHeader_of_classless (classless line member), by rw [level]; decide,
            fun _ => noConstructor,
            fun _ => noField⟩, ?_⟩
          · intro c brace
            have absent : c ∉ line := by
              intro here
              rcases brace with rfl | rfl
              · exact (bare _ here).1 rfl
              · exact (bare _ here).2 rfl
            rw [List.count_eq_zero.mpr absent, List.count_eq_zero]
            intro here
            rcases Line.mem_blankStrings here with inside | quote
            · exact absent inside
            · rcases brace with rfl | rfl <;> cases quote
          · rw [level]
            exact ih fun l member => inside l (List.mem_cons_of_mem _ member)
    exact quiet _ fun _ member => member
  · obtain ⟨front, last, lines, ends, goesOn⟩ := expression.ends
    have size : front.length = more.length := by
      have := congrArg List.length lines
      simpa using this.symm
    rw [expression.arrow, lines, ClassDecl.takeMember_expression ends goesOn, size, Nat.zero_add]

theorem flatMap_ink_of_mark {ls : List Text} {marks : List Text}
    (mark : (ls.map Text.ink).filter (fun ink => !ink.isEmpty) = marks) :
    ls.flatMap Text.ink = marks.flatten := by
  subst mark
  induction ls with
  | nil => rfl
  | cons line rest ih =>
      rw [List.flatMap_cons, ih, List.map_cons, List.filter_cons]
      cases empty : line.ink with
      | nil => rfl
      | cons c tail => simp

theorem paren_of_opensConstructor {line : Text} (opens : Line.opensConstructor line className) :
    '(' ∈ line := by
  rw [Line.opensConstructor, Text.startsWith, List.isPrefixOf_iff_prefix] at opens
  have inside := opens.subset (show '(' ∈ className ++ "(".toList by simp)
  cases found : Text.dropStart? "const " line.trim with
  | none =>
      rw [found] at inside
      exact Text.mem_of_mem_trim inside
  | some rest =>
      rw [found] at inside
      have split := Text.dropStart?_eq_some.mp found
      refine Text.mem_of_mem_trim ?_
      rw [split]
      exact List.mem_append_right _ ((List.dropWhile_suffix _).subset inside)

/-- A line with the mark, or a blank one, declares nothing. -/
theorem quietLine_of_mark (className : Text) {line : Text}
    (mark : line.ink = [] ∨ line.ink = markLine) (classless : "class".toList ∉ line.words) :
    QuietLine className 1 line ∧ Line.braces line = 0 := by
  have listed : ∀ c ∈ line, isBlank c = false → c ∈ markLine := by
    intro c member solid
    have inked : c ∈ line.ink := List.mem_filter.mpr ⟨member, by simp [solid]⟩
    rcases mark with none | same
    · rw [none] at inked
      cases inked
    · rwa [same] at inked
  have absent : ∀ c, isBlank c = false → c ∉ markLine → c ∉ line := fun c solid other member =>
    other (listed c member solid)
  have level : Line.braces line = 0 := by
    refine Line.braces_eq_zero fun c member => ⟨?_, ?_⟩ <;> rintro rfl
    · exact absent '\x7b' (by decide) (by decide) member
    · exact absent '\x7d' (by decide) (by decide) member
  have unquoted : ∀ c ∈ line, Line.isQuote c = false := by
    intro c member
    rw [Bool.eq_false_iff]
    intro quote
    have quote : c = '\'' ∨ c = '"' := by simpa [Line.isQuote] using quote
    rcases quote with rfl | rfl
    · exact absent _ (by decide) (by decide) member
    · exact absent _ (by decide) (by decide) member
  refine ⟨⟨Line.hidesNoBrace_of_unquoted unquoted,
    isHeader_of_classless classless, by rw [level]; decide, fun _ => ?_,
    fun _ => ?_⟩, level⟩
  · rw [Bool.eq_false_iff]
    exact fun opens => absent '(' (by decide) (by decide) (paren_of_opensConstructor opens)
  · rcases mark with none | same
    · exact Line.not_showsField
        (Line.isField_eq_false_of_blank (by simpa [Text.ink, Text.isBlankText] using none) _)
    · intro shows
      have inside : '@' ∈ line := (List.mem_filter.mp (show '@' ∈ line.ink by rw [same]; decide)).1
      obtain ⟨before, behind, split⟩ := List.append_of_mem inside
      refine shows.unmarked "@" (by decide) ?_
      rw [Line.code_eq (absent '/' (by decide) (by decide)), Line.blankStrings_eq_self unquoted]
      exact Text.infix_trim ⟨before, behind, by rw [split]; simp⟩ (by decide)

theorem quiet_of_mark (mark : ∀ line ∈ above, line.ink = [] ∨ line.ink = markLine)
    (classless : ∀ line ∈ above, "class".toList ∉ line.words) : Quiet className 1 above 1 := by
  induction above with
  | nil => rfl
  | cons line rest ih =>
      obtain ⟨quiet, level⟩ :=
        quietLine_of_mark className (mark line (by simp)) (classless line (by simp))
      refine ⟨quiet, ?_⟩
      rw [level]
      exact ih (fun l member => mark l (List.mem_cons_of_mem _ member))
        fun l member => classless l (List.mem_cons_of_mem _ member)

theorem Quiet.hides {depth behind : Int} {ls : List Text}
    (quiet : Quiet className depth ls behind) :
    ∀ line ∈ ls, Line.HidesNoBrace line := by
  induction ls generalizing depth with
  | nil => simp
  | cons line rest ih =>
      intro l member
      rcases List.mem_cons.mp member with rfl | member
      · exact quiet.1.hides
      · exact ih quiet.2 l member

theorem signature_plain (kind : MemberKind) (plain : ∀ d ∈ className, Text.isPlain d) :
    '\x7b' ∉ leadWord className kind ++ leadRest kind ∧
      ¬ "=>".toList <:+: leadWord className kind ++ leadRest kind := by
  have rest : '\x7b' ∉ leadRest kind ∧ ('=' ∈ leadRest kind → '>' ∉ leadRest kind) := by
    cases kind <;> decide
  have behind : ∀ {c}, Text.isPlain c = false → c ∈ leadWord className kind ++ leadRest kind →
      c ∈ leadRest kind := by
    intro c strange member
    rcases List.mem_append.mp member with word | rest
    · exact absurd (plain_leadWord plain kind c word) (by simp [strange])
    · exact rest
  refine ⟨fun brace => rest.1 (behind (by decide) brace), fun arrow => ?_⟩
  exact rest.2 (behind (by decide) (arrow.subset (by decide)))
    (behind (by decide) (arrow.subset (by decide)))

theorem like_of_body {ink : Text} (plain : ∀ d ∈ className, Text.isPlain d)
    (body : IsBlock className first more ∨ IsArrow className first more)
    (signature : leadWord className kind ++ leadRest kind <+: ink) (front : first.ink <+: ink) :
    Like className kind first := by
  obtain ⟨noBrace, noArrow⟩ := signature_plain kind plain
  rcases List.prefix_or_prefix_of_prefix signature front with whole | part
  · exact whole
  · rcases body with block | expression
    · have inside : '\x7b' ∈ first := by
        rw [← List.count_pos_iff]
        have := block.opens
        rw [Line.braces] at this
        omega
      exact absurd (part.subset (List.mem_filter.mpr ⟨inside, by decide⟩)) noBrace
    · obtain ⟨before, behind, split⟩ := Text.has_iff_infix.mp expression.arrow
      refine absurd (List.IsInfix.trans ?_ part.isInfix) noArrow
      rw [← split, Text.ink_append, Text.ink_append]
      exact ⟨Text.ink before, Text.ink behind, rfl⟩

/-- A method stands again where only its blanks have changed, as long as its lines are broken
    where the search can follow. -/
theorem Standing.reflowed {text oldFirst : Text} {oldAbove oldMore : List Text}
    (h : Standing className kind text oldAbove oldFirst oldMore)
    (marked : (oldAbove.map Text.ink).filter (fun ink => !ink.isEmpty) =
      if isMarked kind then [markLine] else [])
    (slash : '/' ∉ text) (plain : ∀ d ∈ className, Text.isPlain d)
    (upper : ∃ c rest, className = c :: rest ∧ c.isUpper)
    (spaced : Respaced (oldAbove ++ oldFirst :: oldMore) (above ++ first :: more))
    (new : Reflowed className kind above first more) :
    Standing className kind text above first more := by
  have shown := spaced.hidesNoBrace h.quiet_lines.hides
  -- the mark above is the same, so the rest has the ink of the method
  have ink : (first :: more).flatMap Text.ink = (oldFirst :: oldMore).flatMap Text.ink := by
    have whole := eq_of_beq spaced.ink
    rw [Text.ink_unlines, Text.ink_unlines, List.flatMap_append, List.flatMap_append,
      flatMap_ink_of_mark new.mark, flatMap_ink_of_mark marked] at whole
    exact List.append_cancel_left whole
  have known : (first :: more).flatMap Text.ink = text.ink := by
    have old := eq_of_beq h.ink
    rw [Text.ink_unlines] at old
    rw [ink, old]
  have level : depthBehind 1 (first :: more) = 1 := by
    rw [depthBehind_ink, ink, ← depthBehind_ink, h.quiet.depthBehind]
  have noSlash : ∀ line ∈ first :: more, '/' ∉ line := by
    intro line member inside
    have inked : '/' ∈ text.ink := by
      rw [← known]
      exact List.mem_flatMap.mpr ⟨line, member, List.mem_filter.mpr ⟨inside, by decide⟩⟩
    exact slash (List.mem_filter.mp inked).1
  have classless : ∀ line ∈ first :: more, "class".toList ∉ line.words := fun line member =>
    new.classless line (List.mem_append_right _ member)
  have marks : ∀ line ∈ above, line.ink = [] ∨ line.ink = markLine := by
    intro line member
    rcases List.eq_nil_or_concat' line.ink with none | ⟨start, last, some⟩
    · exact .inl none
    · have inside : line.ink ∈ if isMarked kind then [markLine] else [] := by
        rw [← new.mark, List.mem_filter]
        exact ⟨List.mem_map_of_mem member, by simp [some]⟩
      split at inside
      · exact .inr (List.mem_singleton.mp inside)
      · cases inside
  have signature : leadWord className kind ++ leadRest kind <+: text.ink := by
    rw [← known, ink, List.flatMap_cons]
    exact h.like.trans (List.prefix_append _ _)
  have stands : Quiet className 1 (first :: more) 1 ∧
      ClassDecl.takeMember (first.has "=>") 1 0 (first :: more) =
        some (more.length, first :: more) := by
    rcases new.body with block | expression
    · exact block.stands (fun line member => shown line (List.mem_append_right _ member)) classless
        noSlash level
    · exact expression.stands classless
  refine ⟨h.method, quiet_of_mark marks fun line member =>
    new.classless line (List.mem_append_left _ member), stands.1,
    like_of_body plain new.body signature ?_, ?_, stands.2, ?_, ?_, new.unlike⟩
  · rw [← known, List.flatMap_cons]
    exact List.prefix_append _ _
  · exact new.body.imp (·.opens) (·.arrow)
  · rw [Text.sameInk, beq_iff_eq, Text.ink_unlines, known]
  · intro line member other method
    rcases marks line member with none | same
    · exact unlike_nil upper method (by simpa [Text.ink, Text.isBlankText] using none)
    · have mark : ¬ Like className other ('@' :: "override".toList) :=
        unlike_of_head upper method (by decide) (by decide) (by decide)
      rwa [Like, same]

end ValueClass.Dart
