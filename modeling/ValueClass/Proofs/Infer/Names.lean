import ValueClass.Name.Dart
import ValueClass.Proofs.Fresh.Names
import ValueClass.Proofs.Text.Only

/-! # Names for arbitrary text

Whatever text a name is made for, only letters and digits of ASCII and underscores
are left in it. A namer answers like its policy: what it remembers stands under a
key that belongs to one question only.
-/

namespace ValueClass

namespace Text

/-- A text of letters and digits of ASCII and underscores. -/
abbrev IsPlain (t : Text) : Prop :=
  t.Only Text.isPlain

theorem IsPlain.solid {t : Text} (h : t.IsPlain) : ∀ c ∈ t, isBlank c = false :=
  fun c member => isBlank_of_isPlain (h c member)

theorem isPlain_of_table {f : Char → Char}
    (table : ∀ n < 0x80, Text.isPlain (Char.ofNat n) → Text.isPlain (f (Char.ofNat n))) {c : Char}
    (h : Text.isPlain c) : Text.isPlain (f c) := by
  have found := table c.toNat (toNat_of_isPlain h)
  rw [Char.ofNat_toNat] at found
  exact found h

end Text

namespace Name

theorem isPlain_upperChar {c : Char} (h : Text.isPlain c) : (upperChar c).IsPlain := by
  have raised : Text.isPlain c.toUpper := Text.isPlain_of_table (by decide) h
  rw [upperChar, if_pos (Text.toNat_of_isPlain h)]
  exact .cons raised .nil

theorem isPlain_capitalize {t : Text} (h : t.IsPlain) : (capitalize t).IsPlain := by
  cases t with
  | nil => exact .nil
  | cons c rest => exact (isPlain_upperChar (h c List.mem_cons_self)).append h.tail

theorem isPlain_clean (text : Text) : (dartPolicy.clean text).IsPlain := by
  have runs : ∀ piece ∈ text.runs Text.isPlain, piece.IsPlain :=
    fun piece inside => .of_mem_runs inside
  rw [NamePolicy.clean]
  split
  · have fallback : Text.IsPlain "field".toList := by decide
    exact fallback
  · rename_i first rest pieces
    rw [pieces] at runs
    exact (runs first List.mem_cons_self).append
      (.flatMap fun piece inside => isPlain_capitalize (runs piece (List.mem_cons_of_mem _ inside)))

theorem isPlain_pascal {t : Text} (h : t.IsPlain) : (pascal t).IsPlain :=
  .flatMap fun _ inside => isPlain_capitalize (h.run inside)

theorem isPlain_avoidClash {t : Text} (h : t.IsPlain) : (dartPolicy.avoidClash t).IsPlain := by
  rw [NamePolicy.avoidClash]
  split
  · cases t with
    | nil => exact .nil
    | cons c rest => exact .cons (h c List.mem_cons_self) (isPlain_capitalize h)
  · exact h

theorem isPlain_avoidDigit {t : Text} (h : t.IsPlain) : (dartPolicy.avoidDigit t).IsPlain := by
  rw [NamePolicy.avoidDigit]
  split
  · have mark : Text.IsPlain dartPolicy.digitMark := by decide
    exact mark.append h
  · exact h

theorem isPlain_className (text : Text) : (className text).IsPlain :=
  isPlain_avoidDigit (isPlain_avoidClash (isPlain_pascal (isPlain_clean text)))

theorem isPlain_varName (text : Text) : (varName text).IsPlain :=
  isPlain_avoidDigit (isPlain_avoidClash (isPlain_clean text))

/-! ## First characters -/

open Fresh (IsIdentifier)

theorem canStart {c : Char} (plain : Text.isPlain c) (noDigit : isDigitChar c = false) :
    c.isAlpha ∨ c = '_' := by
  have ascii := Text.toNat_of_isPlain plain
  rw [isDigitChar, isDecimalChar, if_pos ascii, Bool.or_eq_false_iff] at noDigit
  simpa [Text.isPlain, Char.isAlphanum, noDigit.1] using plain

theorem isIdentifier_avoidDigit {t : Text} (plain : t.IsPlain) (some : t ≠ []) :
    IsIdentifier (dartPolicy.avoidDigit t) := by
  refine ⟨isPlain_avoidDigit plain, ?_⟩
  cases t with
  | nil => exact absurd rfl some
  | cons c rest =>
      rw [NamePolicy.avoidDigit]
      split
      · exact ⟨'n', c :: rest, rfl, .inl (by decide)⟩
      · rename_i noDigit
        exact ⟨c, rest, rfl, canStart (plain c List.mem_cons_self) (by simpa using noDigit)⟩

theorem head?_avoidClash (t : Text) : (dartPolicy.avoidClash t).head? = t.head? := by
  rw [NamePolicy.avoidClash]
  split
  · cases t with
    | nil => rfl
    | cons c rest => rfl
  · rfl

theorem avoidClash_ne_nil {t : Text} (some : t ≠ []) : dartPolicy.avoidClash t ≠ [] := by
  intro none
  have head := head?_avoidClash t
  rw [none, List.head?_nil, eq_comm, List.head?_eq_none_iff] at head
  exact some head

theorem clean_ne_nil (text : Text) : dartPolicy.clean text ≠ [] := by
  rw [NamePolicy.clean]
  split
  · decide
  · rename_i first rest pieces
    have listed : first ∈ text.runs Text.isPlain := pieces ▸ List.mem_cons_self
    have some : first ≠ [] := by simpa using (List.mem_filter.mp listed).2
    exact List.append_ne_nil_of_left_ne_nil some _

theorem isIdentifier_varName (text : Text) : IsIdentifier (varName text) :=
  isIdentifier_avoidDigit (isPlain_avoidClash (isPlain_clean text))
    (avoidClash_ne_nil (clean_ne_nil text))

/-- Neither a respelled word nor a name with the mark in front is a word of the language. -/
theorem notMem_reservedWords (t : Text) :
    dartPolicy.avoidDigit (dartPolicy.avoidClash t) ∉ reservedWords := by
  have respelled : ∀ word ∈ reservedWords, dartPolicy.respelling.apply word ∉ reservedWords := by
    decide +kernel
  have unmarked : ∀ word ∈ reservedWords,
      ((word.drop 1).head?.map isDigitChar).getD false = false := by decide
  have other : dartPolicy.avoidClash t ∉ reservedWords := by
    rw [NamePolicy.avoidClash]
    split
    · rename_i clash
      exact respelled t (by simpa [dartPolicy] using clash)
    · rename_i free
      simpa [dartPolicy] using free
  rw [NamePolicy.avoidDigit]
  split
  · rename_i digit
    intro word
    have second := unmarked _ word
    have mark : (dartPolicy.digitMark ++ dartPolicy.avoidClash t).drop 1 =
        dartPolicy.avoidClash t := rfl
    rw [mark, digit] at second
    cases second
  · exact other

theorem varName_ne_class (text : Text) : varName text ≠ "class" := by
  have free : varName text ∉ reservedWords := notMem_reservedWords (dartPolicy.clean text)
  intro same
  rw [same] at free
  exact free (by decide)

theorem isIdentifier_className {text : Text} (some : className text ≠ []) :
    IsIdentifier (className text) := by
  refine isIdentifier_avoidDigit (isPlain_avoidClash (isPlain_pascal (isPlain_clean text)))
    fun none => some ?_
  exact congrArg dartPolicy.avoidDigit none

/-- A name in Pascal case starts with a capital or a digit. -/
theorem head_pascal {t : Text} (plain : t.IsPlain) {c : Char} (head : (pascal t).head? = some c) :
    c.isUpper ∨ c.isDigit := by
  have table : ∀ n < 0x80, Text.isPlain (Char.ofNat n) → Char.ofNat n ≠ '_' →
      (Char.ofNat n).toUpper.isUpper ∨ (Char.ofNat n).toUpper.isDigit := by decide
  rw [pascal] at head
  cases runs : t.runs fun c => !(c == '_' || c == '-' || isBlank c) with
  | nil =>
      rw [runs] at head
      cases head
  | cons first more =>
      have listed : first ∈ t.runs fun c => !(c == '_' || c == '-' || isBlank c) :=
        runs ▸ List.mem_cons_self
      rw [runs] at head
      cases first with
      | nil => exact absurd (List.mem_filter.mp listed).2 (by decide)
      | cons d tail =>
          have kept := Text.Only.of_mem_runs listed d List.mem_cons_self
          have ascii := Text.toNat_of_isPlain (plain.run listed d List.mem_cons_self)
          have raised := table d.toNat ascii
          rw [Char.ofNat_toNat] at raised
          rw [List.flatMap_cons, capitalize, upperChar, if_pos ascii] at head
          obtain rfl : d.toUpper = c := Option.some.inj head
          refine raised (plain.run listed d List.mem_cons_self) ?_
          rintro rfl
          exact absurd kept (by decide)

theorem head_className {text : Text} {c : Char} (head : (className text).head? = some c) :
    c.isUpper ∨ c = 'n' := by
  have plain := isPlain_pascal (isPlain_clean text)
  have whole : className text = dartPolicy.avoidDigit
      (dartPolicy.avoidClash (pascal (dartPolicy.clean text))) := rfl
  rw [whole, NamePolicy.avoidDigit] at head
  split at head
  · exact .inr (Option.some.inj head).symm
  · rename_i noDigit
    have first : (pascal (dartPolicy.clean text)).head? = some c :=
      (head?_avoidClash _).symm.trans head
    refine .inl ((head_pascal (isPlain_clean text) first).resolve_right fun digit => noDigit ?_)
    have ascii := Text.toNat_of_isPlain (plain c (List.mem_of_mem_head? first))
    rw [head, Option.map_some, Option.getD_some, isDigitChar, isDecimalChar, if_pos ascii, digit]
    rfl

end Name

/-! ## Memory -/

namespace Namer

theorem eq_of_append_underscore {a b label other : Text} (first : '_' ∉ label)
    (second : '_' ∉ other) (same : a ++ '_' :: label = b ++ '_' :: other) :
    a = b ∧ label = other := by
  have shorter : ∀ {a b label other between : Text}, '_' ∉ label → b = a ++ between →
      '_' :: label = between ++ '_' :: other → a = b ∧ label = other := by
    intro a b label other between clean grown rest
    cases between with
    | nil =>
        rw [List.nil_append, List.cons.injEq] at rest
        exact ⟨by rw [grown, List.append_nil], rest.2⟩
    | cons c tail =>
        -- The underscore in front of `other` would stand in `label`.
        rw [List.cons_append, List.cons.injEq] at rest
        exact absurd (by simp [rest.2]) clean
  rcases List.append_eq_append_iff.mp same with ⟨between, grown, rest⟩ | ⟨between, grown, rest⟩
  · exact shorter first grown rest
  · obtain ⟨texts, labels⟩ := shorter second grown rest
    exact ⟨texts.symm, labels.symm⟩

theorem key_injective {text other : Text} {case case' : NameCase}
    (same : key text case = key other case') : text = other ∧ case = case' := by
  have clean : ∀ case : NameCase, '_' ∉ case.label := by
    intro case
    cases case <;> decide
  have apart : ∀ a b : NameCase, a.label = b.label → a = b := by
    intro a b
    cases a <;> cases b <;> decide
  have shape : ∀ (text : Text) (case : NameCase), key text case = text ++ '_' :: case.label := by
    intro text case
    show (text ++ ['_']) ++ case.label = _
    rw [List.append_assoc]
    rfl
  rw [shape, shape] at same
  obtain ⟨texts, labels⟩ := eq_of_append_underscore (clean case) (clean case') same
  exact ⟨texts, apart _ _ labels⟩

/-- Everything that a namer remembers is what its policy says. -/
def Recalls (namer : Namer) : Prop :=
  ∀ text case name, namer.known.lookup (key text case) = some name →
    name = namer.policy.nameFor text case

/-- An action gives a fixed answer, whatever a namer of this policy remembers, and leaves
    such a namer behind. -/
def Answers {α : Type} (policy : NamePolicy) (action : StateM Namer α) (answer : α) : Prop :=
  ∀ namer : Namer, namer.policy = policy → namer.Recalls →
    (action namer).1 = answer ∧ (action namer).2.policy = policy ∧ (action namer).2.Recalls

namespace Answers

variable {α β : Type} {policy : NamePolicy}

theorem pure (a : α) : Answers policy (Pure.pure a) a :=
  fun _ same right => ⟨rfl, same, right⟩

theorem bind {x : StateM Namer α} {f : α → StateM Namer β} {a : α} {b : β}
    (first : Answers policy x a) (second : Answers policy (f a) b) :
    Answers policy (x >>= f) b := by
  intro namer same right
  obtain ⟨answer, same, right⟩ := first namer same right
  have step : (x >>= f) namer = f (x namer).1 (x namer).2 := rfl
  rw [step, answer]
  exact second _ same right

theorem nameFor (text : Text) (case : NameCase) :
    Answers policy (Namer.nameFor text case) (policy.nameFor text case) := by
  rintro namer rfl right
  rw [Namer.nameFor]
  cases known : namer.known.lookup (key text case) with
  | some name => exact ⟨right text case name known, rfl, right⟩
  | none =>
      refine ⟨rfl, rfl, ?_⟩
      intro other case' name found
      rw [List.lookup_cons] at found
      split at found
      · rename_i same
        obtain ⟨rfl, rfl⟩ := key_injective (beq_iff_eq.mp same)
        exact (Option.some.inj found).symm
      · exact right other case' name found

end Answers

end Namer

end ValueClass
