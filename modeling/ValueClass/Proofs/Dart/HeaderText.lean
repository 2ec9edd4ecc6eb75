import ValueClass.Dart.Header
import ValueClass.Proofs.Text.Joined

/-! # Headers as text

A header that is written is read back: its parts are the tokens of the line, since type
arguments keep their blanks to themselves, and the commas of a clause stand at the ends of
its tokens.
-/

namespace ValueClass.Dart.Header

/-! ## Parts -/

/-- A single type: angle brackets close in it, blanks and commas stand only inside of them,
    it has no other brackets, and it is no keyword of a clause. -/
structure IsType (t : Text) : Prop where
  filled : t ≠ []
  whole : Text.Passes angleStep (fun c => isBlank c || c == ',') 0 t 0
  plain : ∀ c ∈ t, c ∉ "()[]\x7b\x7d".toList
  free : Clause.ofToken? t = none

/-- Type parameters: nothing, or a text in angle brackets, with blanks only inside of them. -/
def IsGenerics (t : Text) : Prop :=
  t = [] ∨ ∃ inner, t = '<' :: (inner ++ ['>']) ∧ Text.Passes angleStep isBlank 1 inner 1

/-- Modifiers, and whether they rule out instances: tokens other than the keyword, with a
    space between them. -/
def IsModifiers (t : Text) (isAbstract : Bool) : Prop :=
  ∃ words, t = Text.join " " words ∧ (∀ w ∈ words, Text.IsToken w ∧ w ≠ "class") ∧
    isAbstract = words.any fun w => w = "abstract" || w = "sealed"

/-- A header whose parts can be told apart in a line. -/
structure IsFormed (h : Header) : Prop where
  modifiers : IsModifiers h.modifiers h.isAbstract
  name : ∃ name, h.name = some name ∧ name ≠ [] ∧ ∀ c ∈ name, isWordChar c
  generics : IsGenerics h.generics
  superclass : ∀ parent ∈ h.superclass, IsType parent
  mixins : ∀ mixin ∈ h.mixins, IsType mixin
  interfaces : ∀ interface ∈ h.interfaces, IsType interface

section Types

variable {t : Text}

theorem IsType.isToken (h : IsType t) : Text.IsToken t :=
  ⟨h.filled, h.whole.mono fun _ _ => ⟨rfl, fun blank => by simp [blank]⟩⟩

theorem IsType.isToken_comma (h : IsType t) : Text.IsToken (t ++ [',']) :=
  ⟨by simp, h.isToken.whole.append (by decide)⟩

theorem IsType.isItem (h : IsType t) : Text.IsItem t := by
  refine ⟨h.filled, ?_, ?_⟩
  · have trimmed : Text.trim ([] ++ t) = t :=
      Text.trim_append_of_blank rfl h.isToken.first h.isToken.last
    simpa using trimmed
  · apply h.whole.mono
    intro c member
    have other : ∀ d ∈ "()[]\x7b\x7d".toList, c ≠ d := by
      rintro d bracket rfl
      exact h.plain c member bracket
    refine ⟨?_, fun comma => by simp only [comma, Bool.or_true]⟩
    simp [bracketStep, angleStep, other '(' (by decide), other ')' (by decide),
      other '[' (by decide), other ']' (by decide), other '\x7b' (by decide),
      other '\x7d' (by decide)]

theorem isToken_declared {name generics : Text} (filled : name ≠ [])
    (word : ∀ c ∈ name, isWordChar c) (closed : IsGenerics generics) :
    Text.IsToken (name ++ generics) := by
  have front : Text.Passes angleStep isBlank 0 name 0 := by
    apply Text.passes_of_forall
    intro c member
    have apart : ∀ d, isWordChar d = false → c ≠ d := by
      rintro d other rfl
      simp [word c member] at other
    refine ⟨?_, isBlank_of_isWordChar (word c member)⟩
    simp [angleStep, apart '<' (by decide), apart '>' (by decide)]
  refine ⟨by simp [filled], front.append ?_⟩
  rcases closed with rfl | ⟨inner, rfl, whole⟩
  · rfl
  · have opening : Text.Passes angleStep isBlank 0 ['<'] 1 := by decide
    have closing : Text.Passes angleStep isBlank 1 ['>'] 0 := by decide
    exact opening.append (whole.append closing)

theorem getLast?_declared {name generics : Text} (word : ∀ c ∈ name, isWordChar c)
    (closed : IsGenerics generics) : (name ++ generics).getLast? ≠ some '\x7b' := by
  rcases closed with rfl | ⟨inner, rfl, -⟩
  · intro last
    rw [List.append_nil] at last
    exact absurd (word _ (List.mem_of_getLast? last)) (by decide)
  · rw [List.getLast?_append_cons, ← List.cons_append, List.getLast?_concat]
    decide

end Types

/-! ## The tokens of a header -/

/-- The entries of a clause, each but the last with its comma. -/
def entries : List Text → List Text
  | [] => []
  | [entry] => [entry]
  | entry :: next :: rest => (entry ++ [',']) :: entries (next :: rest)

theorem join_entries (ts : List Text) : Text.join " " (entries ts) = Text.join ", " ts := by
  induction ts with
  | nil => rfl
  | cons entry rest ih =>
      cases rest with
      | nil => rfl
      | cons next others =>
          have step : Text.join " " ((entry ++ [',']) :: entries (next :: others)) =
              (entry ++ [',']) ++ " ".toList ++ Text.join " " (entries (next :: others)) := by
            cases others <;> rfl
          rw [entries, step, ih, Text.join_cons_cons]
          simp

theorem mem_entries {ts : List Text} {entry : Text} (member : entry ∈ entries ts) :
    ∃ t ∈ ts, entry = t ∨ entry = t ++ [','] := by
  induction ts with
  | nil => simp [entries] at member
  | cons t rest ih =>
      cases rest with
      | nil => exact ⟨t, by simp, .inl (by simpa [entries] using member)⟩
      | cons next others =>
          rw [entries, List.mem_cons] at member
          rcases member with rfl | later
          · exact ⟨t, by simp, .inr rfl⟩
          · obtain ⟨u, inside, same⟩ := ih later
            exact ⟨u, by simp [inside], same⟩

theorem getLast?_entries (ts : List Text) : (entries ts).getLast? = ts.getLast? := by
  induction ts with
  | nil => rfl
  | cons t rest ih =>
      cases rest with
      | nil => rfl
      | cons next others =>
          have filled : entries (next :: others) ≠ [] := by cases others <;> simp [entries]
          obtain ⟨head, tail, split⟩ := List.exists_cons_of_ne_nil filled
          rw [entries, split, List.getLast?_cons_cons, ← split, ih, List.getLast?_cons_cons]

def Clause.keyword : Clause → Text
  | .extends => "extends"
  | .mixes => "with"
  | .implements => "implements"

/-- The tokens of a clause; a clause that holds nothing is not written. -/
def Clause.tokens (clause : Clause) (held : List Text) : List Text :=
  if held = [] then [] else clause.keyword :: held

def clauses (h : Header) : List Text :=
  Clause.extends.tokens h.superclass.toList ++
    (Clause.mixes.tokens (entries h.mixins) ++ Clause.implements.tokens (entries h.interfaces))

theorem Clause.isToken_keyword (clause : Clause) : Text.IsToken clause.keyword := by
  cases clause <;> exact Text.isToken_of_solid (by decide) (by decide)

theorem Clause.mem_tokens {clause : Clause} {held : List Text} {t : Text}
    (member : t ∈ clause.tokens held) :
    t = clause.keyword ∨ t ∈ held := by
  rw [Clause.tokens] at member
  split at member
  · simp at member
  · exact List.mem_cons.mp member

theorem Clause.head_tokens {clause : Clause} {held rest : List Text} {t : Text}
    (same : clause.tokens held = t :: rest) : t = clause.keyword := by
  rw [Clause.tokens] at same
  split at same
  · cases same
  · exact (List.cons.inj same).1.symm

theorem head_clauses {h : Header} {t : Text} {rest : List Text} (same : h.clauses = t :: rest) :
    ∃ clause : Clause, t = clause.keyword := by
  rcases List.append_eq_cons_iff.mp same with ⟨-, others⟩ | ⟨more, first, -⟩
  · rcases List.append_eq_cons_iff.mp others with ⟨-, third⟩ | ⟨more, second, -⟩
    · exact ⟨_, Clause.head_tokens third⟩
    · exact ⟨_, Clause.head_tokens second⟩
  · exact ⟨_, Clause.head_tokens first⟩

namespace IsFormed

variable {h : Header} (formed : h.IsFormed)

include formed

theorem isToken_clauses : ∀ t ∈ h.clauses, Text.IsToken t := by
  have listed : ∀ ts : List Text, (∀ t ∈ ts, IsType t) → ∀ t ∈ entries ts, Text.IsToken t := by
    intro ts types t member
    obtain ⟨u, inside, rfl | rfl⟩ := mem_entries member
    · exact (types _ inside).isToken
    · exact (types _ inside).isToken_comma
  intro t member
  simp only [clauses, List.mem_append] at member
  rcases member with first | second | third
  · rcases Clause.mem_tokens first with rfl | held
    · exact Clause.isToken_keyword _
    · exact (formed.superclass t (by simpa using held)).isToken
  · rcases Clause.mem_tokens second with rfl | held
    · exact Clause.isToken_keyword _
    · exact listed _ formed.mixins t held
  · rcases Clause.mem_tokens third with rfl | held
    · exact Clause.isToken_keyword _
    · exact listed _ formed.interfaces t held

/-- A header without its brace does not end in one. -/
theorem getLast?_clauses : ∀ t, h.clauses.getLast? = some t → t.getLast? ≠ some '\x7b' := by
  have plain : ∀ t, IsType t → t.getLast? ≠ some '\x7b' := by
    intro t type last
    exact type.plain _ (List.mem_of_getLast? last) (by decide)
  have held : ∀ (clause : Clause) (ts : List Text), (∀ t, ts.getLast? = some t → IsType t) →
      ∀ t, (clause.tokens ts).getLast? = some t → t.getLast? ≠ some '\x7b' := by
    intro clause ts types t last
    cases ts with
    | nil => simp [Clause.tokens] at last
    | cons first rest =>
        rw [Clause.tokens, if_neg (by simp), List.getLast?_cons_cons] at last
        exact plain t (types t last)
  intro t last
  rw [clauses, List.getLast?_append, List.getLast?_append] at last
  cases third : (Clause.implements.tokens (entries h.interfaces)).getLast? with
  | some u =>
      have same : u = t := by simpa [third] using last
      subst same
      exact held _ _ (fun v ends => formed.interfaces v
        (List.mem_of_getLast? (getLast?_entries _ ▸ ends))) u third
  | none =>
      cases second : (Clause.mixes.tokens (entries h.mixins)).getLast? with
      | some u =>
          have same : u = t := by simpa [third, second] using last
          subst same
          exact held _ _ (fun v ends => formed.mixins v
            (List.mem_of_getLast? (getLast?_entries _ ▸ ends))) u second
      | none =>
          have first : (Clause.extends.tokens h.superclass.toList).getLast? = some t := by
            simpa [third, second] using last
          refine held _ _ (fun v ends => formed.superclass v ?_) t first
          have member := List.mem_of_getLast? ends
          simpa using member

end IsFormed

/-! ## Writing -/

theorem join_cons_eq_flatMap (first : Text) (rest : List Text) :
    Text.join " " (first :: rest) = first ++ rest.flatMap fun t => ' ' :: t := by
  induction rest generalizing first with
  | nil => simp [Text.join]
  | cons next others ih =>
      rw [Text.join_cons_cons, ih next, List.flatMap_cons]
      simp

theorem Clause.flatMap_tokens (clause : Clause) (held : List Text) :
    ((clause.tokens held).flatMap fun t => ' ' :: t) =
      if held = [] then [] else ' ' :: clause.keyword ++ " ".toList ++ Text.join " " held := by
  cases held with
  | nil => rfl
  | cons first rest =>
      rw [Clause.tokens, if_neg (by simp), if_neg (by simp), List.flatMap_cons,
        join_cons_eq_flatMap, List.flatMap_cons]
      simp

theorem entries_eq_nil {ts : List Text} : entries ts = [] ↔ ts = [] := by
  cases ts with
  | nil => simp [entries]
  | cons t rest => cases rest <;> simp [entries]

/-- The clauses as they are written. -/
theorem flatMap_clauses {h : Header} (filled : ∀ parent ∈ h.superclass, parent ≠ []) :
    (h.clauses.flatMap fun t => ' ' :: t) =
      Text.when (!(h.superclass.getD []).isEmpty) (" extends ".toList ++ h.superclass.getD []) ++
        (Text.when (!h.mixins.isEmpty) (" with ".toList ++ Text.join ", " h.mixins) ++
          Text.when (!h.interfaces.isEmpty) (" implements ".toList ++ Text.join ", " h.interfaces))
            := by
  have listed : ∀ (clause : Clause) (ts : List Text),
      ((clause.tokens (entries ts)).flatMap fun t => ' ' :: t) =
      Text.when (!ts.isEmpty) (' ' :: clause.keyword ++ " ".toList ++ Text.join ", " ts) := by
    intro clause ts
    simp only [Clause.flatMap_tokens, entries_eq_nil, join_entries]
    cases ts <;> rfl
  have parent : ((Clause.extends.tokens h.superclass.toList).flatMap fun t => ' ' :: t) =
      Text.when (!(h.superclass.getD []).isEmpty) (" extends ".toList ++ h.superclass.getD []) := by
    rw [Clause.flatMap_tokens]
    cases parent : h.superclass with
    | none => rfl
    | some t =>
        obtain ⟨c, rest, rfl⟩ := List.exists_cons_of_ne_nil (filled t parent)
        rfl
  rw [clauses, List.flatMap_append, List.flatMap_append, parent, listed, listed]
  rfl

/-- A header is written as its tokens with a space between them. -/
theorem render_eq_join {h : Header} {words : List Text} {name : Text}
    (modifiers : h.modifiers = Text.join " " words) (filled : ∀ w ∈ words, w ≠ [])
    (concrete : words = [] → h.isAbstract = false) (named : h.name = some name)
    (parent : ∀ parent ∈ h.superclass, parent ≠ []) (replaced : Text) :
    h.render replaced = indentOf replaced ++
      Text.join " " (words ++ "class".toList :: (name ++ h.generics) ::
        (h.clauses ++ if h.opensBody then ["\x7b".toList] else [])) := by
  have front : Text.when
      (!(if h.modifiers.isEmpty && h.isAbstract then "abstract".toList else h.modifiers).isEmpty)
        ((if h.modifiers.isEmpty && h.isAbstract then "abstract".toList else h.modifiers) ++
          " ".toList) =
      if words = [] then [] else Text.join " " words ++ " ".toList := by
    cases words with
    | nil =>
        have none : h.modifiers = [] := modifiers
        rw [none, concrete rfl]
        rfl
    | cons w rest =>
        obtain ⟨c, tail, rfl⟩ := List.exists_cons_of_ne_nil (filled w (by simp))
        have some : (Text.join " " ((c :: tail) :: rest)).isEmpty = false := by cases rest <;> rfl
        rw [modifiers, some, Bool.false_and, if_neg Bool.false_ne_true, some, if_neg (by simp)]
        rfl
  have brace : Text.when h.opensBody " \x7b".toList =
      (if h.opensBody then ["\x7b".toList] else []).flatMap fun t => ' ' :: t := by
    cases h.opensBody <;> rfl
  have whole : Text.join " " (words ++ "class".toList :: (name ++ h.generics) ::
        (h.clauses ++ if h.opensBody then ["\x7b".toList] else [])) =
      (if words = [] then [] else Text.join " " words ++ " ".toList) ++
        ("class ".toList ++ (name ++ (h.generics ++ ((h.clauses.flatMap fun t => ' ' :: t) ++
          Text.when h.opensBody " \x7b".toList)))) := by
    have behind : ∀ rest :
        List Text, Text.join " " ("class".toList :: (name ++ h.generics) :: rest) =
        "class ".toList ++ (name ++ (h.generics ++ rest.flatMap fun t => ' ' :: t)) := by
      intro rest
      have word : "class ".toList = "class".toList ++ [' '] := rfl
      rw [join_cons_eq_flatMap, List.flatMap_cons, word]
      simp only [List.append_assoc, List.cons_append, List.nil_append]
    rw [brace, ← List.flatMap_append, ← behind]
    cases words with
    | nil => rfl
    | cons w rest => rw [Text.join_append (by simp) (by simp),
        if_neg (show ¬ w :: rest = [] by simp)]
  rw [whole, flatMap_clauses parent, render, nameText, named, Option.getD_some, front]
  simp only [List.append_assoc]

/-! ## Reading -/

/-- The text of a header line without the brace at its end. -/
def unbraced (line : Text) : Text :=
  if line.trim.endsWith "\x7b" then Text.trimEnd line.trim.dropLast else line.trim

theorem endsWith_brace {t : Text} : t.endsWith "\x7b" = (t.getLast? == some '\x7b') := by
  rcases List.eq_nil_or_concat t with rfl | ⟨start, c, rfl⟩
  · rfl
  · rw [List.concat_eq_append, List.getLast?_concat, Text.endsWith, Bool.eq_iff_iff,
      List.isSuffixOf_iff_suffix, beq_iff_eq, Option.some.injEq]
    constructor
    · rintro ⟨front, same⟩
      exact (List.append_inj_right' same rfl |> List.singleton_inj.mp).symm
    · rintro rfl
      exact ⟨start, rfl⟩

/-- The brace at the end of a line of tokens is told from the tokens before it. -/
theorem unbraced_join {blanks : Text} (blank : blanks.isBlankText) {pieces : List Text}
    (filled : pieces ≠ []) (each : ∀ p ∈ pieces, Text.IsToken p)
    (ending : ∀ p, pieces.getLast? = some p → p.getLast? ≠ some '\x7b') {brace : Bool}
    {line : Text}
    (written : line = blanks ++ Text.join " " (pieces ++ if brace then ["\x7b".toList] else [])) :
    unbraced line = Text.join " " pieces ∧ line.trim.endsWith "\x7b" = brace := by
  have braced : ∀ p ∈ pieces ++ (if brace then ["\x7b".toList] else []), Text.IsToken p := by
    intro p member
    rcases List.mem_append.mp member with inside | last
    · exact each p inside
    · split at last
      · rw [List.mem_singleton.mp last]
        exact Text.isToken_of_solid (by decide) (by decide)
      · cases last
  have trimmed := written ▸ Text.trim_append_join blank braced
  cases brace with
  | false =>
      have other : line.trim.endsWith "\x7b" = false := by
        rw [endsWith_brace, trimmed]
        simp only [Bool.false_eq_true, ↓reduceIte, List.append_nil, beq_eq_false_iff_ne]
        rw [Text.getLast?_join fun p member => (each p member).filled]
        intro last
        obtain ⟨p, final, ends⟩ := Option.bind_eq_some_iff.mp last
        exact ending p final ends
      rw [unbraced, other, if_neg Bool.false_ne_true, trimmed]
      simp
  | true =>
      have split : line.trim = Text.join " " pieces ++ " ".toList ++ ['\x7b'] := by
        rw [trimmed, if_pos rfl, Text.join_append filled (by simp)]
        rfl
      have own : line.trim.endsWith "\x7b" = true := by
        rw [endsWith_brace, split, List.getLast?_concat]
        rfl
      have whole : (Text.join " " pieces).trim = Text.join " " pieces :=
        @Text.trim_append_join [] rfl pieces each
      refine ⟨?_, own⟩
      rw [unbraced, own, if_pos rfl, split, List.dropLast_concat, Text.trimEnd_append_of_blank rfl,
        Text.trimEnd_of_trimmed whole]

theorem parse_eq_of_tokens {line name generics : Text} {modifiers declared clauses : List Text}
    (keyword : splitKeyword (Text.tokens (unbraced line)) = (modifiers, declared))
    (split : splitName declared = some (name, generics, clauses)) :
    parse line =
      { modifiers := Text.join " " modifiers
        isAbstract := modifiers.any fun m => m = "abstract" || m = "sealed"
        name := some name
        generics
        superclass :=
          if (clauseTokens .extends none clauses).isEmpty then none
          else some (Text.join " " (clauseTokens .extends none clauses))
        mixins := Text.splitTopLevel ',' (Text.join " " (clauseTokens .mixes none clauses))
        interfaces := Text.splitTopLevel ',' (Text.join " " (clauseTokens .implements none clauses))
        opensBody := line.trim.endsWith "\x7b" } := by
  simp only [parse]
  rw [unbraced] at keyword
  rw [keyword]
  dsimp only
  rw [split]

theorem splitKeyword_append {words declared : List Text} (other : ∀ w ∈ words, w ≠ "class") :
    splitKeyword (words ++ "class".toList :: declared) = (words, declared) := by
  have pass : ∀ w ∈ words, (w != "class".toList) = true := by simpa using other
  rw [splitKeyword, if_pos (by simp), List.takeWhile_append_of_pos pass,
    List.dropWhile_append_of_pos pass]
  simp

theorem splitName_declared {name generics : Text} {clauses : List Text}
    (word : ∀ c ∈ name, isWordChar c) (closed : IsGenerics generics)
    (next : ∀ t rest, clauses = t :: rest → t.startsWith "<" = false) :
    splitName ((name ++ generics) :: clauses) = some (name, generics, clauses) := by
  have lacks : '<' ∉ name := by
    intro member
    exact absurd (word _ member) (by decide)
  rcases closed with rfl | ⟨inner, rfl, -⟩
  · have none : Text.cut? "<".toList name = none := Text.cut?_eq_none lacks
    rw [List.append_nil]
    simp only [splitName, none]
    cases clauses with
    | nil => rfl
    | cons t rest => simp only [next t rest rfl, Bool.false_eq_true, ↓reduceIte]
  · have found : Text.cut? "<".toList (name ++ '<' :: (inner ++ ['>'])) =
        some (name, inner ++ ['>']) :=
      Text.cut?_append lacks _
    simp only [splitName, found]

/-! ## Clauses -/

theorem Clause.ofToken?_keyword (clause : Clause) :
    Clause.ofToken? clause.keyword = some clause := by
  cases clause <;> rfl

theorem Clause.ofToken?_eq_none {t : Text} (other : ∀ clause : Clause, t ≠ clause.keyword) :
    Clause.ofToken? t = none := by
  have parent : t ≠ "extends".toList := other .extends
  have mixin : t ≠ "with".toList := other .mixes
  have interface : t ≠ "implements".toList := other .implements
  simp only [Clause.ofToken?, if_neg parent, if_neg mixin, if_neg interface]

theorem clauseTokens_append (wanted : Clause) (open? : Option Clause) {held : List Text}
    (free : ∀ t ∈ held, Clause.ofToken? t = none) (rest : List Text) :
    clauseTokens wanted open? (held ++ rest) =
      (if open? = some wanted then held else []) ++ clauseTokens wanted open? rest := by
  induction held with
  | nil => simp
  | cons t more ih =>
      rw [List.cons_append, clauseTokens, free t (by simp)]
      dsimp only
      rw [ih fun u member => free u (List.mem_cons_of_mem _ member)]
      split <;> rfl

theorem clauseTokens_congr (wanted : Clause) (a b : Option Clause) {ts : List Text}
    (next : ∀ t rest, ts = t :: rest → (Clause.ofToken? t).isSome) :
    clauseTokens wanted a ts = clauseTokens wanted b ts := by
  cases ts with
  | nil => rfl
  | cons t rest =>
      obtain ⟨clause, found⟩ := Option.isSome_iff_exists.mp (next t rest rfl)
      rw [clauseTokens, clauseTokens, found]

theorem clauseTokens_tokens (wanted clause : Clause) {held rest : List Text}
    (free : ∀ t ∈ held, Clause.ofToken? t = none)
    (next : ∀ t more, rest = t :: more → (Clause.ofToken? t).isSome) :
    clauseTokens wanted none (clause.tokens held ++ rest) =
      (if clause = wanted then held else []) ++ clauseTokens wanted none rest := by
  rw [Clause.tokens]
  split
  · rename_i empty
    simp [empty]
  · rw [List.cons_append, clauseTokens, Clause.ofToken?_keyword]
    dsimp only
    rw [clauseTokens_append wanted _ free, clauseTokens_congr wanted (some clause) none next]
    simp

theorem splitTopLevel_entries {ts : List Text} (types : ∀ t ∈ ts, IsType t) :
    Text.splitTopLevel ',' (Text.join " " (entries ts)) = ts := by
  rw [join_entries]
  exact Text.splitTopLevel_of_lists (Text.lists_join ts) fun t member => (types t member).isItem

/-- Clauses in their order hold what was put into them. -/
theorem clauseTokens_ordered (wanted : Clause) {parents mixed implemented : List Text}
    (free : ∀ t ∈ parents ++ (mixed ++ implemented), Clause.ofToken? t = none) :
    clauseTokens wanted none (Clause.extends.tokens parents ++
        (Clause.mixes.tokens mixed ++ Clause.implements.tokens implemented)) =
      (if Clause.extends = wanted then parents else []) ++
        ((if Clause.mixes = wanted then mixed else []) ++
          (if Clause.implements = wanted then implemented else [])) := by
  have opens : ∀ {clause : Clause} {held rest : List Text} {t : Text},
      clause.tokens held = t :: rest →
      (Clause.ofToken? t).isSome := by
    intro clause held rest t same
    rw [Clause.head_tokens same, Clause.ofToken?_keyword]
    rfl
  have last : clauseTokens wanted none (Clause.implements.tokens implemented) =
      if Clause.implements = wanted then implemented else [] := by
    have := @clauseTokens_tokens wanted .implements implemented []
        (fun t member => free t (by simp [member]))
      (by simp)
    simpa [clauseTokens] using this
  rw [clauseTokens_tokens wanted .extends (fun t member => free t (by simp [member])),
    clauseTokens_tokens wanted .mixes (fun t member => free t (by simp [member])), last]
  · exact fun t rest => opens
  · intro t rest same
    rcases List.append_eq_cons_iff.mp same with ⟨-, third⟩ | ⟨more, second, -⟩
    · exact opens third
    · exact opens second

theorem IsFormed.clauseTokens_clauses {h : Header} (formed : h.IsFormed) (wanted : Clause) :
    clauseTokens wanted none h.clauses =
      (if Clause.extends = wanted then h.superclass.toList else []) ++
        ((if Clause.mixes = wanted then entries h.mixins else []) ++
          (if Clause.implements = wanted then entries h.interfaces else [])) := by
  have free : ∀ ts : List Text, (∀ t ∈ ts, IsType t) →
      ∀ t ∈ entries ts, Clause.ofToken? t = none := by
    intro ts types t member
    obtain ⟨u, inside, rfl | rfl⟩ := mem_entries member
    · exact (types _ inside).free
    · have comma : ∀ clause : Clause, u ++ [','] ≠ clause.keyword := by
        intro clause same
        have last := congrArg List.getLast? same
        rw [List.getLast?_concat] at last
        cases clause <;> exact absurd last (by decide)
      exact Clause.ofToken?_eq_none comma
  apply clauseTokens_ordered
  intro t member
  rcases List.mem_append.mp member with parent | others
  · exact (formed.superclass t (by simpa using parent)).free
  · rcases List.mem_append.mp others with mixed | implemented
    · exact free _ formed.mixins t mixed
    · exact free _ formed.interfaces t implemented

/-- A header that is written is read back, whatever line it replaces. -/
theorem parse_render {h : Header} (formed : h.IsFormed) (replaced : Text) :
    parse (h.render replaced) = h := by
  obtain ⟨words, modifiers, each, flag⟩ := formed.modifiers
  obtain ⟨name, named, filled, word⟩ := formed.name
  have concrete : words = [] → h.isAbstract = false := by
    rintro rfl
    rw [flag]
    rfl
  have written := render_eq_join modifiers (fun w member => (each w member).1.filled) concrete named
    (fun parent member => (formed.superclass parent member).filled) replaced
  have isToken : ∀ t ∈ words ++ "class".toList :: (name ++ h.generics) :: h.clauses,
      Text.IsToken t := by
    intro t member
    simp only [List.mem_append, List.mem_cons] at member
    rcases member with first | rfl | rfl | behind
    · exact (each t first).1
    · exact Text.isToken_of_solid (by decide) (by decide)
    · exact isToken_declared filled word formed.generics
    · exact formed.isToken_clauses t behind
  have ending : ∀ p,
      (words ++ "class".toList :: (name ++ h.generics) :: h.clauses).getLast? = some p →
      p.getLast? ≠ some '\x7b' := by
    intro p last
    rw [List.getLast?_append_cons, List.getLast?_cons_cons] at last
    cases behind : h.clauses with
    | nil =>
        obtain rfl : name ++ h.generics = p := by simpa [behind] using last
        exact getLast?_declared word formed.generics
    | cons t rest =>
        rw [behind, List.getLast?_cons_cons] at last
        exact formed.getLast?_clauses p (behind ▸ last)
  have shape : h.render replaced = indentOf replaced ++ Text.join " "
      ((words ++ "class".toList :: (name ++ h.generics) :: h.clauses) ++ if h.opensBody then
        ["\x7b".toList] else []) := by
    simpa using written
  obtain ⟨core, opens⟩ :=
    unbraced_join (by simp [indentOf, Text.isBlankText]) (by simp) isToken ending shape
  have next : ∀ t rest, h.clauses = t :: rest → t.startsWith "<" = false := by
    intro t rest same
    obtain ⟨clause, rfl⟩ := head_clauses same
    cases clause <;> rfl
  have keyword : splitKeyword (Text.tokens (unbraced (h.render replaced))) =
      (words, (name ++ h.generics) :: h.clauses) := by
    rw [core, Text.tokens_join isToken, splitKeyword_append fun w member => (each w member).2]
  have parent : clauseTokens .extends none h.clauses = h.superclass.toList := by
    simpa using formed.clauseTokens_clauses .extends
  have mixed : clauseTokens .mixes none h.clauses = entries h.mixins := by
    simpa using formed.clauseTokens_clauses .mixes
  have implemented : clauseTokens .implements none h.clauses = entries h.interfaces := by
    simpa using formed.clauseTokens_clauses .implements
  rw [parse_eq_of_tokens keyword (splitName_declared word formed.generics next), opens, parent,
    mixed, implemented, splitTopLevel_entries formed.mixins,
    splitTopLevel_entries formed.interfaces, ← modifiers, ← flag, ← named]
  have back : (if h.superclass.toList.isEmpty then none
    else some (Text.join " " h.superclass.toList)) = h.superclass := by
    cases h.superclass <;> rfl
  rw [back]

theorem parse_render_bounded :
    let h : Header :=
      { modifiers := "@immutable abstract base", isAbstract := true, name := some "Pair"
        generics := "<A extends Map<B, C>,  B, C>", superclass := some "Base<A, B?>"
        mixins := ["M", "N<A>"], interfaces := ["Comparable<Pair<A, B, C>>"], opensBody := false }
    h.IsFormed ∧ parse (h.render "\t class Pair \x7b") = h := by
  intro h
  have formed : h.IsFormed :=
    { modifiers := by
        refine ⟨["@immutable", "abstract", "base"], by decide, ?_, by decide⟩
        intro w member
        simp only [List.mem_cons, List.not_mem_nil, or_false] at member
        rcases member with rfl | rfl | rfl <;>
          exact ⟨Text.isToken_of_solid (by decide) (by decide), by decide⟩
      name := ⟨"Pair", rfl, by decide, by decide⟩
      generics := .inr ⟨"A extends Map<B, C>,  B, C", by decide, by decide⟩
      superclass := by
        intro parent same
        obtain rfl : "Base<A, B?>".toList = parent := Option.some.inj same
        exact ⟨by decide, by decide, by decide, by decide⟩
      mixins := by
        intro mixin member
        simp only [h, List.mem_cons, List.not_mem_nil, or_false] at member
        rcases member with rfl | rfl <;> exact ⟨by decide, by decide, by decide, by decide⟩
      interfaces := by
        intro interface member
        rw [List.mem_singleton.mp member]
        exact ⟨by decide, by decide, by decide, by decide⟩ }
  exact ⟨formed, parse_render formed _⟩

end ValueClass.Dart.Header
