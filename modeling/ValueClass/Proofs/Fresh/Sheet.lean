import ValueClass.Proofs.Fresh.ClassHeader
import ValueClass.Proofs.Member.Calm
import ValueClass.Proofs.Member.Layout
import ValueClass.Proofs.Member.Lead

/-! # What is known about a written method

A sheet says of a method of a fresh class all that is needed to find it again: its
lines are those of a member, the first of them starts like the member, and the
others start like no other member, except that a name or a type may be taken for a
hash code. It also says that the lines are calm, so that nothing in them is read as
a field or a constructor even where a part of them is cut away, and hold no slash.
-/

namespace ValueClass.Fresh

open Dart Dart.Line

/-- The class with nothing written in it, apart from its place in a buffer. -/
def ClassText.plain (c : ClassText) : ClassDecl where
  header := headerParts c.name false
  firstLine := 1
  fields := c.fields.map (·.field 1)

structure IsIndent (indent : Text) : Prop where
  blank : indent.isBlankText
  light : indent.all isLight

theorem isIndent_spaces (count : Nat) : IsIndent (List.replicate count ' ') := by
  constructor
  · rw [Text.isBlankText, List.all_replicate]
    split <;> decide
  · rw [List.all_replicate]
    split <;> decide

theorem IsIndent.append {a b : Text} (first : IsIndent a) (second : IsIndent b) :
    IsIndent (a ++ b) := by
  constructor
  · rw [Text.isBlankText, List.all_append, Bool.and_eq_true]
    exact ⟨first.blank, second.blank⟩
  · rw [List.all_append, Bool.and_eq_true]
    exact ⟨first.light, second.light⟩

structure Solid (line : Text) : Prop where
  head : ∀ d, line.head? = some d → isBlank d = false
  last : ∀ d, line.getLast? = some d → isBlank d = false

theorem solid_of_all {line : Text} (head : line.head?.all fun d => !isBlank d)
    (last : line.getLast?.all fun d => !isBlank d) : Solid line := by
  constructor
  · intro d same
    simpa [same] using head
  · intro d same
    simpa [same] using last

theorem IsIndent.trim {indent line : Text} (ind : IsIndent indent) (solid : Solid line) :
    Text.trim (indent ++ line) = line := by
  refine Text.trim_append_of_blank ind.blank ?_ ?_
  · rintro d rest rfl
    exact solid.head d rfl
  · rintro d rest rfl
    exact solid.last d List.getLast?_concat

theorem IsIndent.noFeed {indent : Text} (h : IsIndent indent) : '\n' ∉ indent := by
  intro member
  exact absurd (List.all_eq_true.mp h.light _ member) (by decide)

def hashWord : Text := "intgethashCode"

/-- Whether a name of a field can be taken for a hash code. -/
def ClassText.hashLikeName (c : ClassText) : Prop :=
  ∃ f ∈ c.fields, hashWord <+: f.name

/-- Whether a type of a field can be taken for a hash code. -/
def ClassText.hashLikeType (c : ClassText) : Prop :=
  ∃ f ∈ c.fields, hashWord <+: f.type.text

/-- Whether a line of a method can be taken for a hash code. -/
def ClassText.exposes (c : ClassText) : MemberKind → Prop
  | .copyWith => c.hashLikeType ∨ c.hashLikeName
  | .fromMap | .props => c.hashLikeName
  | _ => False

/-- Whether a method is written below an override mark. -/
def isMarked : MemberKind → Bool
  | .toString | .equality | .hashCode | .props => true
  | _ => false

structure Sheet (c : ClassText) (indent text : Text) (kind : MemberKind) (first : Text)
    (more : List Text) : Prop where
  layout : Layout text (isMarked kind) (first :: more)
  member : ClassDecl.IsMember c.name ((first :: more).map (indented indent))
  like : Like c.name kind first
  unlike : ∀ line ∈ more, ∀ later, later ≠ .constructor → later ≠ kind →
    (later = .hashCode → ¬ c.exposes kind) → ¬ Like c.name later line
  calm : Calm c.name false ((first :: more).map (indented indent))
  noSlash : ∀ line ∈ first :: more, '/' ∉ line

section Lines

variable {c : ClassText} {indent w rest : Text} {d : Char} {kind : MemberKind}

theorem ClassText.plainName (c : ClassText) : ∀ d ∈ c.name, Text.isPlain d :=
  c.isIdentifier.plain

theorem ClassText.notMem_openers (c : ClassText) : c.name ∉ Header.openers := by
  intro member
  have lower : ∀ word ∈ Header.openers, word.all fun d => !d.isUpper := by decide
  obtain ⟨d, rest, same, upper⟩ := c.upper
  have := List.all_eq_true.mp (lower _ member) d (by simp [same])
  simp [upper] at this

theorem ClassText.name_ne_const (c : ClassText) : c.name ≠ "const" := by
  intro equal
  obtain ⟨d, rest, same, upper⟩ := c.upper
  rw [equal] at same
  have : 'c' = d := (List.cons.inj same).1
  subst this
  exact absurd upper (by decide)

theorem ClassText.opensConstructor_of_low (c : ClassText) {line rest : Text} {d : Char}
    (trimmed : line.trim = d :: rest) (low : d.isUpper = false)
    (keyword : Text.dropStart? "const ".toList (d :: rest) = none) :
    opensConstructor line c.name = false := by
  obtain ⟨e, more, same, upper⟩ := c.upper
  have differ : e ≠ d := by
    rintro rfl
    rw [upper] at low
    cases low
  rw [opensConstructor, trimmed, keyword, same, Text.startsWith, List.cons_append, Option.map_none,
    Option.getD_none, List.isPrefixOf_cons_cons, Bool.and_eq_false_iff]
  exact .inl (by simpa using differ)

theorem ClassText.opensConstructor_of_head (c : ClassText) {line rest : Text} {d : Char}
    (trimmed : line.trim = d :: rest) (low : d.isUpper = false) (foreign : d ≠ 'c') :
    opensConstructor line c.name = false := by
  refine c.opensConstructor_of_low trimmed low ?_
  have apart : List.isPrefixOf ('c' :: "onst ".toList) (d :: rest) = false := by
    rw [List.isPrefixOf_cons_cons, Bool.and_eq_false_iff]
    exact .inl (by simpa using fun equal => foreign equal.symm)
  rw [Text.dropStart?, if_neg]
  rw [show "const ".toList = 'c' :: "onst ".toList from rfl, apart]
  simp

theorem indented_word (word : ∀ e ∈ w, isWordChar e) (nonempty : w ≠ []) :
    indented indent (w ++ rest) = indent ++ (w ++ rest) := by
  obtain ⟨e, tail, rfl⟩ := List.exists_cons_of_ne_nil nonempty
  exact indented_of_mem (c := e) (by simp) (isBlank_of_isWordChar (word e (by simp))) indent

/-! ## Calm lines -/

theorem noSlash_of_light {line : Text} (light : line.all isLight) : '/' ∉ line := by
  intro member
  exact absurd (List.all_eq_true.mp light _ member) (by decide)

theorem code_indent (ind : IsIndent indent) {line : Text} (light : line.all isLight)
    (solid : Solid line) :
    code (indent ++ line) = line := by
  have whole : (indent ++ line).all isLight := by
    rw [List.all_append, ind.light, light]
    rfl
  rw [code_eq (noSlash_of_light whole), blankStrings_eq_self (unquoted_of_light whole),
    ind.trim solid]

theorem trim_withoutComment (ind : IsIndent indent) {line : Text} (light : line.all isLight)
    (solid : Solid line) :
    (withoutComment (indent ++ line)).trim = line := by
  have whole : (indent ++ line).all isLight := by
    rw [List.all_append, ind.light, light]
    rfl
  rw [withoutComment]
  split
  · exact ind.trim solid
  · rw [dropComment_eq_self (noSlash_of_light whole), ind.trim solid]

theorem quietLine_nil (name : Text) (upper : ∃ d rest, name = d :: rest ∧ d.isUpper) :
    QuietLine name 1 [] := by
  obtain ⟨d, rest, rfl, -⟩ := upper
  exact ⟨(snippet_light (t := []) rfl).hides, by decide, by decide, fun _ => rfl,
    fun _ => not_showsField (isField_eq_false_of_blank rfl _)⟩

/-- A line that goes on: its last character is no blank and no semicolon. -/
def GoesOn (line : Text) : Prop :=
  ∃ front d, line = front ++ [d] ∧ isBlank d = false ∧ d ≠ ';'

theorem goesOn_concat {a : Text} {d : Char} (solid : isBlank d = false) (other : d ≠ ';') :
    GoesOn (a ++ [d]) :=
  ⟨a, d, rfl, solid, other⟩

theorem GoesOn.append {line : Text} (h : GoesOn line) (before : Text) :
    GoesOn (before ++ line) := by
  obtain ⟨front, d, rfl, solid, other⟩ := h
  exact ⟨before ++ front, d, by rw [List.append_assoc], solid, other⟩

theorem GoesOn.indented {line : Text} (h : GoesOn line) (indent : Text) :
    GoesOn (indented indent line) := by
  rw [Dart.indented]
  split
  · exact h
  · exact h.append indent

theorem GoesOn.endsWith {line : Text} (h : GoesOn line) : line.trimEnd.endsWith ";" = false := by
  obtain ⟨front, d, rfl, solid, other⟩ := h
  rw [Text.trimEnd_concat solid, Bool.eq_false_iff]
  intro ends
  obtain ⟨before, same⟩ := List.isSuffixOf_iff_suffix.mp ends
  have last := congrArg List.getLast? same
  rw [List.getLast?_concat, show ";".toList = [';'] from rfl, List.getLast?_concat] at last
  exact other (Option.some.inj last).symm

theorem GoesOn.shelters {line : Text} (h : GoesOn line) {sheltered : Bool}
    (inside : Line.braces line = 1 ∨ sheltered ∧ Line.braces line = 0) :
    shelters sheltered line := by
  rw [Dart.shelters, h.endsWith]
  rcases inside with opens | ⟨rfl, level⟩
  · simp [opens]
  · simp [level]

theorem mild_of_written {weight : Int} {line : Text} (h : Written weight line)
    (atLeast : -1 ≤ weight) (atMost : weight ≤ 1) : Mild line := by
  refine ⟨h.hides, h.noHeader [] rfl, ?_, ?_⟩
  · rwa [h.raw]
  · rwa [h.raw]

theorem mild_of_quiet {name line : Text} {depth : Int} (h : QuietLine name depth line)
    (atLeast : -1 ≤ Line.braces line) (atMost : Line.braces line ≤ 1) : Mild line :=
  ⟨h.hides, h.noHeader, atLeast, atMost⟩

theorem tame_of_quiet {name line : Text} (h : QuietLine name 1 line) : Tame name line := by
  refine ⟨h.noConstructor rfl, fun level => h.noField ?_⟩
  have := h.inside
  omega

theorem tame_of_isBlankText {line : Text} (blank : line.isBlankText) : Tame c.name line := by
  refine ⟨?_, fun _ => not_showsField (isField_eq_false_of_blank blank c.name)⟩
  obtain ⟨d, rest, same, -⟩ := c.upper
  rw [opensConstructor, Text.trim_of_isBlankText blank, same]
  rfl

theorem calm_of_goesOn (ind : IsIndent indent) {name : Text} {ls : List Text}
    (each : ∀ line ∈ ls, Written 0 line) (on : ∀ line ∈ ls.dropLast, GoesOn line) :
    Calm name true (ls.map (indented indent)) := by
  induction ls with
  | nil => exact .nil
  | cons line rest ih =>
      have here := (each line (by simp)).indented ind.blank ind.light
      refine .cons (mild_of_written here (by decide) (by decide)) (.inr ⟨rfl, here.raw⟩) ?_
      cases rest with
      | nil => exact .nil
      | cons next more =>
          rw [((on line (by simp)).indented indent).shelters (.inr ⟨rfl, here.raw⟩)]
          refine ih (fun l member => each l (List.mem_cons_of_mem _ member)) fun l member => on l ?_
          rw [List.dropLast_cons_cons]
          exact List.mem_cons_of_mem _ member

theorem calm_of_tame {name : Text} {ls : List Text} (each : ∀ line ∈ ls, Mild line ∧ Tame name line)
    {sheltered : Bool} : Calm name sheltered ls := by
  induction ls generalizing sheltered with
  | nil => exact .nil
  | cons line rest ih =>
      obtain ⟨mild, tame⟩ := each line (by simp)
      exact .cons mild (.inl tame) (ih fun l member => each l (List.mem_cons_of_mem _ member))

theorem tame_closing (ind : IsIndent indent) {weight : Int} {rest : Text}
    (h : Written weight ('}' :: rest)) (solid : Solid ('}' :: rest)) :
    Tame c.name (indent ++ '}' :: rest) := by
  have trimmed : Text.trim (indent ++ '}' :: rest) = '}' :: rest := ind.trim solid
  have slash : '/' ∉ indent ++ "\x7d".toList ++ rest := by
    rw [List.append_assoc]
    exact (h.indent ind.blank ind.light).noSlash
  refine ⟨c.opensConstructor_of_head trimmed (by decide) (by decide), fun _ => not_showsField ?_⟩
  have noField := isField_eq_false_of_mark (by decide) (unquoted_of_light ind.light) slash c.name
  rwa [List.append_assoc] at noField

/-! ## Members -/

/-- A block of written lines is a member. -/
theorem isMember_lines (ind : IsIndent indent) {inner : List Text}
    (h : Written 1 (w ++ d :: rest)) (word : ∀ e ∈ w, isWordChar e) (nonempty : w ≠ [])
    (stop : isWordChar d = false) (other : d ≠ '(') (plain : w ≠ "const")
    (noArrow : '>' ∉ w ++ d :: rest ∨ '=' ∉ w ++ d :: rest)
    (deep : ClassDecl.Deep 2 (inner.map (indented indent)) 2) (className : Text)
    (name : ∀ e ∈ className, isWordChar e) :
    ClassDecl.IsMember className
      (((w ++ d :: rest) :: (inner ++ ["\x7d".toList])).map (indented indent)) := by
  have brace : indented indent "\x7d".toList = indent ++ ['\x7d'] :=
    indented_of_solid (by decide) indent
  rw [List.map_cons, List.map_append, List.map_singleton, brace, indented_word word nonempty]
  refine ClassDecl.isMember_block (h.indent ind.blank ind.light)
    (opensConstructor_eq_false ind.blank name word nonempty stop other plain) ?_ deep
      ind.blank ind.light
  have bare : ∀ e, isBlank e = false → e ∉ indent := by
    intro e solid member
    have := List.all_eq_true.mp ind.blank e member
    simp [this] at solid
  rcases noArrow with none | none
  · refine .inl ?_
    rw [List.mem_append, not_or]
    exact ⟨bare _ (by decide), none⟩
  · refine .inr ?_
    rw [List.mem_append, not_or]
    exact ⟨bare _ (by decide), none⟩

/-- A written line with an arrow is a member. -/
theorem isMember_line (ind : IsIndent indent) {a b : Text} (h : Written 0 (w ++ d :: rest))
    (word : ∀ e ∈ w, isWordChar e) (nonempty : w ≠ []) (stop : isWordChar d = false)
    (other : d ≠ '(') (plain : w ≠ "const")
    (split : w ++ d :: rest = a ++ "=>".toList ++ (b ++ [';']))
    (unquoted : ∀ e ∈ a, isQuote e = false) (className : Text)
    (name : ∀ e ∈ className, isWordChar e) :
    ClassDecl.IsMember className ([w ++ d :: rest].map (indented indent)) := by
  have whole : indent ++ (w ++ d :: rest) = (indent ++ a) ++ "=>".toList ++ (b ++ [';']) := by
    rw [split]
    simp only [List.append_assoc]
  have noConstructor : opensConstructor (indent ++ (w ++ d :: rest)) className = false :=
    opensConstructor_eq_false ind.blank name word nonempty stop other plain
  have written := h.indent ind.blank ind.light
  rw [List.map_singleton, indented_word word nonempty]
  rw [whole] at written noConstructor ⊢
  refine ClassDecl.isMember_arrow written ?_ noConstructor ?_
  · intro e member
    rcases List.mem_append.mp member with member | member
    · exact unquoted_of_light ind.light e member
    · exact unquoted e member
  · rw [← List.append_assoc, Text.trimEnd_concat (by decide)]
    exact List.isSuffixOf_iff_suffix.mpr (List.suffix_append _ _)

theorem written_brace : Written (-1) "\x7d".toList :=
  written_mark (snippet_of_unquoted (by decide) (by decide)) (by decide) (by decide) (by decide)

theorem calm_block (ind : IsIndent indent) {inner : List Text} (h : Written 1 (w ++ d :: rest))
    (word : ∀ e ∈ w, isWordChar e) (nonempty : w ≠ []) (stop : isWordChar d = false)
    (other : d ≠ '(') (plain : w ≠ "const") (on : GoesOn (w ++ d :: rest))
    (calm : Calm c.name true (inner.map (indented indent))) :
    Calm c.name false (((w ++ d :: rest) :: (inner ++ ["\x7d".toList])).map (indented indent)) := by
  have opening := h.indent ind.blank ind.light
  have closing := written_brace.indent ind.blank ind.light
  have brace : indented indent "\x7d".toList = indent ++ "\x7d".toList :=
    indented_of_solid (by decide) indent
  rw [List.map_cons, List.map_append, List.map_singleton, brace, indented_word word nonempty]
  refine .cons (mild_of_written opening (by decide) (by decide)) (.inl ⟨?_, ?_⟩) ?_
  · exact opensConstructor_eq_false ind.blank c.isIdentifier.wordChars word nonempty
      stop other plain
  · intro level
    rw [opening.raw] at level
    omega
  · rw [(on.append indent).shelters (.inl opening.raw)]
    refine calm.append (.singleton (mild_of_written closing (by decide) (by decide)) ?_)
    exact tame_closing ind written_brace (solid_of_all (by decide) (by decide))

theorem unlike_brace (method : kind ≠ .constructor) : ¬ Like c.name kind "\x7d".toList :=
  unlike_of_head c.upper method (by decide) (by decide) (by decide)

theorem deep_level (ind : IsIndent indent) {inner : List Text}
    (each : ∀ line ∈ inner, Written 0 line) {depth : Int} (inside : 2 ≤ depth) :
    ClassDecl.Deep depth (inner.map (indented indent)) depth := by
  refine ClassDecl.deep_of_written ?_ inside
  intro line member
  obtain ⟨old, here, rfl⟩ := List.mem_map.mp member
  exact (each old here).indented ind.blank ind.light

theorem sheet_block (ind : IsIndent indent) {text : Text} {inner : List Text}
    (lines : text = (if isMarked kind then Method.overrideMark else []) ++
      Text.unlines ((w ++ d :: rest) :: (inner ++ ["\x7d".toList])))
    (h : Written 1 (w ++ d :: rest)) (word : ∀ e ∈ w, isWordChar e) (nonempty : w ≠ [])
    (stop : isWordChar d = false) (other : d ≠ '(') (plain : w ≠ "const")
    (noArrow : '>' ∉ w ++ d :: rest ∨ '=' ∉ w ++ d :: rest)
    (written : ∀ line ∈ inner, ∃ weight, Written weight line)
    (deep : ClassDecl.Deep 2 (inner.map (indented indent)) 2)
    (like : Like c.name kind (w ++ d :: rest))
    (unlike : ∀ line ∈ inner, ∀ later, later ≠ .constructor → later ≠ kind →
      (later = .hashCode → ¬ c.exposes kind) → ¬ Like c.name later line)
    (on : GoesOn (w ++ d :: rest)) (calm : Calm c.name true (inner.map (indented indent))) :
    Sheet c indent text kind (w ++ d :: rest) (inner ++ ["\x7d".toList]) := by
  have each : ∀ line ∈ (w ++ d :: rest) :: (inner ++ ["\x7d".toList]),
      ∃ weight, Written weight line := by
    intro line member
    rcases List.mem_cons.mp member with rfl | member
    · exact ⟨1, h⟩
    · rcases List.mem_append.mp member with member | member
      · exact written line member
      · rw [List.mem_singleton.mp member]
        exact ⟨-1, written_brace⟩
  refine ⟨⟨lines, by simp, ?_, ?_⟩, ?_, like, ?_,
    calm_block ind h word nonempty stop other plain on calm, ?_⟩
  · intro line member
    obtain ⟨weight, here⟩ := each line member
    exact here.noFeed
  · intro line member
    obtain ⟨weight, here⟩ := each line member
    exact here.noMark
  · exact isMember_lines ind h word nonempty stop other plain noArrow deep c.name
      c.isIdentifier.wordChars
  · intro line member later method differ apart
    rcases List.mem_append.mp member with member | member
    · exact unlike line member later method differ apart
    · rw [List.mem_singleton.mp member]
      exact unlike_brace method
  · intro line member
    obtain ⟨weight, here⟩ := each line member
    exact here.noSlash

theorem sheet_line (ind : IsIndent indent) {text a b : Text}
    (lines : text = (if isMarked kind then Method.overrideMark else []) ++ (w ++ d :: rest))
    (h : Written 0 (w ++ d :: rest)) (word : ∀ e ∈ w, isWordChar e) (nonempty : w ≠ [])
    (stop : isWordChar d = false) (other : d ≠ '(') (plain : w ≠ "const")
    (split : w ++ d :: rest = a ++ "=>".toList ++ (b ++ [';']))
    (unquoted : ∀ e ∈ a, isQuote e = false) (like : Like c.name kind (w ++ d :: rest)) :
    Sheet c indent text kind (w ++ d :: rest) [] := by
  have member : ClassDecl.IsMember c.name ([w ++ d :: rest].map (indented indent)) :=
    isMember_line ind h word nonempty stop other plain split unquoted c.name
      c.isIdentifier.wordChars
  refine ⟨⟨lines, by simp, ?_, ?_⟩, member, like, by simp, ?_, ?_⟩
  · intro line member
    rw [List.mem_singleton.mp member]
    exact h.noFeed
  · intro line member
    rw [List.mem_singleton.mp member]
    exact h.noMark
  · have written := h.indented ind.blank ind.light
    exact .singleton (mild_of_written written (by decide) (by decide))
      (tame_of_quiet member.quiet.1)
  · intro line member
    rw [List.mem_singleton.mp member]
    exact h.noSlash

end Lines

end ValueClass.Fresh
