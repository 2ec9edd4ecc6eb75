import ValueClass.Proofs.Dart.HeaderText

/-! # Sections of a header

Behind the name of a header stand sections: a keyword and the tokens up to the next one.
What is written of them again has as much ink only where each clause has one section at
most, and a clause is put in between them only where they stand in their order.
-/

namespace ValueClass.Dart.Header

/-! ## Sections -/

def inkOf (tokens : List Text) : Text :=
  tokens.flatMap Text.ink

/-- A keyword and the tokens up to the next one. -/
structure Section where
  /-- The clause of the keyword. -/
  clause : Clause
  /-- The tokens behind the keyword. -/
  held : List Text

namespace Section

def tokens (s : Section) : List Text :=
  s.clause.keyword :: s.held

/-- Whether no token of a section opens another. -/
def IsFree (s : Section) : Prop :=
  ∀ t ∈ s.held, Clause.ofToken? t = none

def of (wanted : Clause) (sections : List Section) : List Section :=
  sections.filter fun s => s.clause = wanted

end Section

theorem Clause.eq_keyword_of_ofToken? {t : Text} {clause : Clause}
    (h : Clause.ofToken? t = some clause) :
    t = clause.keyword := by
  rw [Clause.ofToken?] at h
  split at h
  · rename_i same
    cases h
    exact same
  · split at h
    · rename_i same
      cases h
      exact same
    · split at h
      · rename_i same
        cases h
        exact same
      · cases h

theorem exists_sections (ts : List Text) : ∃ (stray : List Text) (sections : List Section),
    ts = stray ++ sections.flatMap Section.tokens ∧ (∀ t ∈ stray, Clause.ofToken? t = none) ∧
      ∀ s ∈ sections, s.IsFree := by
  induction ts with
  | nil => exact ⟨[], [], rfl, by simp, by simp⟩
  | cons t rest ih =>
      obtain ⟨stray, sections, rfl, none, free⟩ := ih
      cases opens : Clause.ofToken? t with
      | none => exact ⟨t :: stray, sections, rfl, by simpa [opens] using none, free⟩
      | some clause =>
          refine ⟨[], ⟨clause, stray⟩ :: sections, ?_, by simp, ?_⟩
          · rw [Clause.eq_keyword_of_ofToken? opens]
            rfl
          · simpa [Section.IsFree] using ⟨none, free⟩

theorem clauseTokens_flatMap (wanted : Clause) (open? : Option Clause) {sections : List Section}
    (free : ∀ s ∈ sections, s.IsFree) :
    clauseTokens wanted open? (sections.flatMap Section.tokens) =
      (Section.of wanted sections).flatMap Section.held := by
  induction sections generalizing open? with
  | nil => rfl
  | cons s rest ih =>
      rw [List.flatMap_cons, Section.tokens, List.cons_append, clauseTokens,
        Clause.ofToken?_keyword]
      dsimp only
      rw [clauseTokens_append wanted _ (free s (by simp)),
        ih _ fun x member => free x (List.mem_cons_of_mem _ member)]
      simp only [Section.of]
      by_cases same : s.clause = wanted
      · rw [List.filter_cons_of_pos (by simpa using same), if_pos (by rw [same]), List.flatMap_cons]
      · rw [List.filter_cons_of_neg (by simpa using same), if_neg (by simpa using same)]
        rfl

theorem clauseTokens_sections (wanted : Clause) {stray : List Text} {sections : List Section}
    (nowhere : ∀ t ∈ stray, Clause.ofToken? t = none) (free : ∀ s ∈ sections, s.IsFree) :
    clauseTokens wanted none (stray ++ sections.flatMap Section.tokens) =
      (Section.of wanted sections).flatMap Section.held := by
  rw [clauseTokens_append wanted _ nowhere, clauseTokens_flatMap wanted _ free, if_neg (by simp)]
  rfl

/-! ## What is written of a clause -/

/-- The text that is written of the tokens of a clause: a list without its blank items. -/
def Clause.read (clause : Clause) (held : List Text) : Text :=
  match clause with
  | .extends => Text.join " " held
  | .mixes | .implements => Text.join ", " (Text.splitTopLevel ',' (Text.join " " held))

/-- A clause in ink; one that holds nothing is not written. -/
def Clause.put (clause : Clause) (ink : Text) : Text :=
  if ink = [] then [] else clause.keyword ++ ink

def Clause.written (clause : Clause) (held : List Text) : Text :=
  clause.put (clause.read held).ink

/-- A clause loses nothing: no item of its list is blank. -/
def Clause.IsKept (clause : Clause) (held : List Text) : Prop :=
  clause = .extends ∨ held = [] ∨ Text.EachFilled (Text.join " " held)

theorem Clause.ink_read {clause : Clause} {held : List Text} (kept : clause.IsKept held) :
    (clause.read held).ink = inkOf held := by
  rcases kept with rfl | rfl | filled
  · exact Text.ink_join_space held
  · cases clause <;> rfl
  · have listed := (Text.ink_join_splitTopLevel filled).trans (Text.ink_join_space held)
    cases clause
    · exact Text.ink_join_space held
    · exact listed
    · exact listed

theorem Clause.length_ink_read (clause : Clause) (held : List Text) :
    (clause.read held).ink.length ≤ (inkOf held).length ∧
      ((clause.read held).ink.length = (inkOf held).length → inkOf held ≠ [] →
        clause.IsKept held) := by
  have listed := Text.length_ink_join_splitTopLevel (Text.join " " held)
  rw [Text.ink_join_space] at listed
  cases clause
  · exact ⟨Nat.le_of_eq (congrArg List.length (Text.ink_join_space held)), fun _ _ => .inl rfl⟩
  · exact ⟨listed.1, fun same inked => .inr (.inr (listed.2 same inked))⟩
  · exact ⟨listed.1, fun same inked => .inr (.inr (listed.2 same inked))⟩

theorem Clause.written_eq {clause : Clause} {held : List Text} (inked : ∀ t ∈ held, t.ink ≠ [])
    (kept : clause.IsKept held) : clause.written held = inkOf (clause.tokens held) := by
  rw [written, put, ink_read kept, tokens]
  cases held with
  | nil => rfl
  | cons t rest =>
      have some : inkOf (t :: rest) ≠ [] := by simp [inkOf, inked t (by simp)]
      have keyword : clause.keyword.ink = clause.keyword := by cases clause <;> rfl
      rw [if_neg some, if_neg (by simp), inkOf, inkOf, List.flatMap_cons (x := clause.keyword),
        keyword]

theorem inkOf_append (a b : List Text) : inkOf (a ++ b) = inkOf a ++ inkOf b :=
  List.flatMap_append

theorem Section.length_flatMap {clause : Clause} {sections : List Section}
    (own : ∀ s ∈ sections, s.clause = clause) :
    (inkOf (sections.flatMap tokens)).length =
      sections.length * clause.keyword.length + (inkOf (sections.flatMap held)).length := by
  induction sections with
  | nil => simp [inkOf]
  | cons s rest ih =>
      have keyword : clause.keyword.ink = clause.keyword := by cases clause <;> rfl
      have first : inkOf s.tokens = clause.keyword ++ inkOf s.held := by
        rw [tokens, inkOf, List.flatMap_cons, own s (by simp), keyword, inkOf]
      rw [List.flatMap_cons, List.flatMap_cons, inkOf_append, inkOf_append, first,
        List.length_append, List.length_append, List.length_append,
        ih fun x member => own x (List.mem_cons_of_mem _ member), List.length_cons, Nat.succ_mul]
      omega

/-- A clause is written with no more ink than its sections have, and with less unless it
    has one section at most, which holds something and loses nothing. -/
theorem Clause.length_written_le (clause : Clause) {sections : List Section}
    (own : ∀ s ∈ sections, s.clause = clause) (inked : ∀ s ∈ sections, ∀ t ∈ s.held, t.ink ≠ []) :
    (clause.written (sections.flatMap Section.held)).length ≤
    (inkOf (sections.flatMap Section.tokens)).length ∧
      ((clause.written (sections.flatMap Section.held)).length =
        (inkOf (sections.flatMap Section.tokens)).length →
        sections = [] ∨ ∃ held, held ≠ [] ∧ clause.IsKept held ∧ sections = [⟨clause, held⟩]) := by
  have word : 0 < clause.keyword.length := by cases clause <;> decide
  have bound : (clause.written (sections.flatMap Section.held)).length ≤
      clause.keyword.length + (clause.read (sections.flatMap Section.held)).ink.length := by
    rw [written, put]
    split <;> simp
  obtain ⟨less, kept⟩ := clause.length_ink_read (sections.flatMap Section.held)
  have size := Section.length_flatMap own
  rcases sections with _ | ⟨⟨c, held⟩, _ | ⟨second, rest⟩⟩
  · refine ⟨?_, fun _ => .inl rfl⟩
    cases clause <;> exact Nat.le_refl 0
  · obtain rfl : c = clause := own ⟨c, held⟩ (by simp)
    have single : [(⟨c, held⟩ : Section)].flatMap Section.held = held := by simp
    rw [single] at bound less kept size ⊢
    rw [List.length_singleton, Nat.one_mul] at size
    refine ⟨by omega, fun same => .inr ⟨held, ?_, ?_, rfl⟩⟩
    · rintro rfl
      have none : (c.written []).length = 0 := by cases c <;> rfl
      omega
    · by_cases filled : held = []
      · exact .inr (.inl filled)
      · obtain ⟨t, rest, rfl⟩ := List.exists_cons_of_ne_nil filled
        exact kept (by omega) (by simp [inkOf, inked ⟨c, t :: rest⟩ (by simp) t (by simp)])
  · have twice : 2 * clause.keyword.length ≤ (rest.length + 1 + 1) * clause.keyword.length :=
      Nat.mul_le_mul_right _ (by omega)
    rw [List.length_cons, List.length_cons] at size
    exact ⟨by omega, fun same => by omega⟩

/-! ## Each clause once -/

theorem Section.of_eq_nil_iff {clause : Clause} {sections : List Section} :
    of clause sections = [] ↔ ∀ s ∈ sections, s.clause ≠ clause := by
  simp [of]

theorem Section.length_partition (sections : List Section) :
    (inkOf (sections.flatMap tokens)).length =
    (inkOf ((of .extends sections).flatMap tokens)).length +
    (inkOf ((of .mixes sections).flatMap tokens)).length +
      (inkOf ((of .implements sections).flatMap tokens)).length := by
  induction sections with
  | nil => rfl
  | cons s rest ih =>
      obtain ⟨clause, held⟩ := s
      have here : ∀ wanted, of wanted (⟨clause, held⟩ :: rest) =
          if clause = wanted then ⟨clause, held⟩ :: of wanted rest else of wanted rest := by
        intro wanted
        by_cases same : clause = wanted <;> simp [of, same]
      simp only [here, List.flatMap_cons, inkOf_append, List.length_append]
      cases clause <;> simp [inkOf_append] <;> omega

/-- Sections that are read whole: each clause has one at most, which holds something and
    loses nothing, and no token is blank. -/
structure AreKept (sections : List Section) : Prop where
  free : ∀ s ∈ sections, s.IsFree
  inked : ∀ t ∈ sections.flatMap Section.tokens, t.ink ≠ []
  once : ∀ clause, Section.of clause sections = [] ∨
    ∃ held, held ≠ [] ∧ clause.IsKept held ∧ Section.of clause sections = [⟨clause, held⟩]

namespace AreKept

variable {sections : List Section} (kept : AreKept sections) (clause : Clause)

include kept

theorem parts : (Section.of clause sections).flatMap Section.tokens =
      clause.tokens ((Section.of clause sections).flatMap Section.held) ∧
    clause.IsKept ((Section.of clause sections).flatMap Section.held) ∧
      (Section.of clause sections).length ≤ 1 := by
  rcases kept.once clause with none | ⟨held, filled, whole, single⟩
  · rw [none]
    exact ⟨rfl, .inr (.inl rfl), Nat.zero_le 1⟩
  · have same : [(⟨clause, held⟩ : Section)].flatMap Section.held = held := by simp
    rw [single, same, Clause.tokens, if_neg filled]
    exact ⟨by simp [Section.tokens], whole, Nat.le_refl 1⟩

theorem ofToken?_held :
    ∀ t ∈ (Section.of clause sections).flatMap Section.held, Clause.ofToken? t = none := by
  intro t member
  obtain ⟨s, inside, held⟩ := List.mem_flatMap.mp member
  exact kept.free s (List.mem_filter.mp inside).1 t held

theorem written_held : clause.written ((Section.of clause sections).flatMap Section.held) =
    inkOf ((Section.of clause sections).flatMap Section.tokens) := by
  rw [(kept.parts clause).1]
  refine Clause.written_eq (fun t member => kept.inked t ?_) (kept.parts clause).2.1
  obtain ⟨s, inside, held⟩ := List.mem_flatMap.mp member
  exact List.mem_flatMap.mpr ⟨s, (List.mem_filter.mp inside).1, List.mem_cons_of_mem _ held⟩

end AreKept

/-- Where the clauses are written with all the ink there is, each has one section at
    most, which holds something and loses nothing. -/
theorem sections_once {stray : List Text} {sections : List Section}
    (nowhere : ∀ t ∈ stray, Clause.ofToken? t = none) (free : ∀ s ∈ sections, s.IsFree)
    (inked : ∀ t ∈ stray ++ sections.flatMap Section.tokens, t.ink ≠ [])
    (size : (inkOf (stray ++ sections.flatMap Section.tokens)).length ≤
      (Clause.extends.written
        (clauseTokens .extends none (stray ++ sections.flatMap Section.tokens))).length +
        (Clause.mixes.written
          (clauseTokens .mixes none (stray ++ sections.flatMap Section.tokens))).length +
          (Clause.implements.written
            (clauseTokens .implements none (stray ++ sections.flatMap Section.tokens))).length) :
    stray = [] ∧ AreKept sections := by
  have each : ∀ clause : Clause, _ :=
    fun clause => @Clause.length_written_le clause (Section.of clause sections)
    (fun s member => by simpa using (List.mem_filter.mp member).2)
    (fun s member t held => inked t (List.mem_append_right _ (List.mem_flatMap.mpr
      ⟨s, (List.mem_filter.mp member).1, List.mem_cons_of_mem _ held⟩)))
  simp only [clauseTokens_sections _ nowhere free, inkOf_append, List.length_append] at size
  have split := Section.length_partition sections
  have first := each .extends
  have second := each .mixes
  have third := each .implements
  refine ⟨?_, free, fun t member => inked t (List.mem_append_right _ member), ?_⟩
  · by_contra some
    obtain ⟨t, rest, rfl⟩ := List.exists_cons_of_ne_nil some
    have ink := List.length_pos_iff.mpr (inked t (by simp))
    have : (inkOf (t :: rest)).length = t.ink.length + (inkOf rest).length := by simp [inkOf]
    omega
  · intro clause
    cases clause
    · exact first.2 (by omega)
    · exact second.2 (by omega)
    · exact third.2 (by omega)

/-- Mixins and interfaces stand in their order, or the other way around. -/
theorem sections_order {sections : List Section} (none : Section.of .extends sections = [])
    (mixed : (Section.of .mixes sections).length ≤ 1)
    (implemented : (Section.of .implements sections).length ≤ 1) :
    sections = Section.of .mixes sections ++ Section.of .implements sections ∨
      ∃ i m, sections = [⟨.implements, i⟩, ⟨.mixes, m⟩] := by
  cases sections with
  | nil => exact .inl rfl
  | cons s rest =>
      obtain ⟨clause, held⟩ := s
      have parents : Section.of .extends rest = [] :=
        Section.of_eq_nil_iff.mpr fun x member => Section.of_eq_nil_iff.mp none x
          (List.mem_cons_of_mem _ member)
      have only : ∀ c d : Clause, c ≠ d → c ≠ .extends → d ≠ .extends → Section.of c rest = [] →
          Section.of d rest = rest := by
        intro c d apart first second gone
        refine List.filter_eq_self.mpr fun x member => ?_
        have parent := Section.of_eq_nil_iff.mp parents x member
        have other := Section.of_eq_nil_iff.mp gone x member
        revert apart first second parent other
        cases c <;> cases d <;> cases x.clause <;> simp
      cases clause
      · simp [Section.of] at none
      · have gone : Section.of .mixes rest = [] := by
          simpa [Section.of] using mixed
        have others := only .mixes .implements (by decide) (by decide) (by decide) gone
        have whole : Section.of .mixes (⟨.mixes, held⟩ :: rest) ++ Section.of .implements
            (⟨.mixes, held⟩ :: rest) =
            ⟨.mixes, held⟩ :: (Section.of .mixes rest ++ Section.of .implements rest) := by
              simp [Section.of]
        rw [whole, gone, others]
        exact .inl rfl
      · have gone : Section.of .implements rest = [] := by
          simpa [Section.of] using implemented
        have others := only .implements .mixes (by decide) (by decide) (by decide) gone
        have single : rest.length ≤ 1 := by
          rw [← others]
          simpa [Section.of] using mixed
        rcases rest with _ | ⟨⟨c, m⟩, _ | ⟨next, more⟩⟩
        · exact .inl rfl
        · obtain rfl : c = .mixes := by
            have own := List.filter_eq_self.mp others ⟨c, m⟩ (by simp)
            simpa using own
          exact .inr ⟨held, m, rfl⟩
        · simp at single

/-! ## Where a clause is put in -/

theorem append_inserted {front old new before after inserted : Text}
    (line : front ++ old = before ++ after) (written : front ++ new = before ++ inserted ++ after) :
    (∃ start, old = start ++ after ∧ new = start ++ inserted ++ after) ∨
      ∃ turned : Text, turned.Perm inserted ∧ new = turned ++ old := by
  rcases List.append_eq_append_iff.mp line with ⟨start, rfl, rfl⟩ | ⟨behind, rfl, rfl⟩
  · refine .inl ⟨start, rfl, ?_⟩
    simpa [List.append_assoc] using written
  · have turn : behind ++ new = (inserted ++ behind) ++ old := by
      simpa [List.append_assoc] using written
    have longer : behind.length ≤ (inserted ++ behind).length := by simp
    obtain ⟨turned, split⟩ := List.prefix_of_prefix_length_le (List.prefix_append behind new)
      (turn ▸ List.prefix_append (inserted ++ behind) old) longer
    refine .inr ⟨turned, ?_, ?_⟩
    · have perm : (behind ++ turned).Perm (behind ++ inserted) := split ▸ List.perm_append_comm
      exact (List.perm_append_left_iff behind).mp perm
    · rw [← split, List.append_assoc] at turn
      exact List.append_cancel_left turn

/-- The ink of the clauses with what is added to them: the superclass where there was
    none, else a mixin, behind the others if there are any. -/
inductive Grows : Text → Text → Text → Text → Text → Prop
  | parent {mixed implemented : Text} : Grows [] mixed implemented "extendsEquatable"
      ("extendsEquatable".toList ++ (mixed ++ implemented))
  /-- The first mixin. -/
  | mixin {parent implemented : Text} :
    Grows ("extends".toList ++ parent) [] implemented "withEquatableMixin"
      ("extends".toList ++ parent ++ ("withEquatableMixin".toList ++ implemented))
  | entry {parent mixed implemented : Text} :
    Grows ("extends".toList ++ parent) ("with".toList ++ mixed) implemented
      ",EquatableMixin" ("extends".toList ++ parent ++
        ("with".toList ++ mixed ++ (",EquatableMixin".toList ++ implemented)))

theorem Grows.length {parent mixed implemented inserted new : Text}
    (h : Grows parent mixed implemented inserted new) :
    new.length = parent.length + mixed.length + implemented.length + inserted.length := by
  cases h <;> simp <;> omega

theorem head_of_inserted {c d e : Char} {old new start after inserted : Text}
    (first : old.head? = some c) (second : new.head? = some d) (third : inserted.head? = some e)
    (apart : d ≠ e) (line : old = start ++ after) (written : new = start ++ inserted ++ after) :
    c = d := by
  cases start with
  | nil =>
      obtain ⟨tail, rfl⟩ := List.head?_eq_some_iff.mp third
      rw [written, List.nil_append, List.cons_append, List.head?_cons, Option.some.injEq] at second
      exact absurd second.symm apart
  | cons x start =>
      rw [line, List.cons_append, List.head?_cons, Option.some.injEq] at first
      rw [written, List.cons_append, List.cons_append, List.head?_cons, Option.some.injEq] at second
      exact first.symm.trans second

theorem subset_of_turned {word more turned old inserted : Text}
    (same : word ++ more = turned ++ old) (perm : turned.Perm inserted)
    (fits : word.length ≤ inserted.length) : word ⊆ inserted := by
  obtain ⟨rest, rfl⟩ := List.prefix_of_prefix_length_le (List.prefix_append word more)
    (same ▸ List.prefix_append turned old) (perm.length_eq.symm ▸ fits)
  exact fun c member => perm.subset (List.mem_append_left rest member)

theorem Section.inkOf_tokens (s : Section) : inkOf s.tokens = s.clause.keyword ++ inkOf s.held := by
  have keyword : s.clause.keyword.ink = s.clause.keyword := by cases s.clause <;> rfl
  rw [tokens, inkOf, List.flatMap_cons, keyword, inkOf]

theorem Section.head?_inkOf {s : Section} {sections : List Section} (behind : Text) :
    (inkOf ((s :: sections).flatMap tokens) ++ behind).head? = s.clause.keyword.head? := by
  rw [List.flatMap_cons, inkOf_append, inkOf_tokens]
  cases s.clause <;> rfl

theorem Section.inkOf_eq_nil {sections : List Section}
    (none : inkOf (sections.flatMap tokens) = []) : sections = [] := by
  cases sections with
  | nil => rfl
  | cons s rest =>
      rw [List.flatMap_cons, inkOf_append, inkOf_tokens] at none
      cases clause : s.clause <;> rw [clause] at none <;> cases none

/-- A mixin is put in behind the superclass, whose section comes first. -/
theorem parent_first {sections : List Section}
    (once : ∀ clause, (Section.of clause sections).length ≤ 1)
    {inserted parent more front brace before after : Text} {d : Char}
    (parents : inkOf ((Section.of .extends sections).flatMap Section.tokens) =
      "extends".toList ++ parent)
    (starts : inserted.head? = some d) (apart : 'e' ≠ d) (lacks : 's' ∉ inserted)
    (fits : 7 ≤ inserted.length)
    (line : front ++ (inkOf (sections.flatMap Section.tokens) ++ brace) = before ++ after)
    (written : front ++ ("extends".toList ++ more) = before ++ inserted ++ after) :
    sections = Section.of .extends sections ++
      (Section.of .mixes sections ++ Section.of .implements sections) ∨
      ∃ held i m, sections = [⟨.extends, held⟩, ⟨.implements, i⟩, ⟨.mixes, m⟩] := by
  cases sections with
  | nil => exact .inl rfl
  | cons s rest =>
      obtain ⟨clause, held⟩ := s
      obtain rfl : clause = .extends := by
        rcases append_inserted line written with ⟨start, old, new⟩ | ⟨turned, perm, new⟩
        · have same : ∀ c, clause.keyword.head? = some c → c = 'e' := fun c head =>
            head_of_inserted ((Section.head?_inkOf brace).trans head) rfl starts apart old new
          cases clause
          · rfl
          · exact absurd (same 'w' rfl) (by decide)
          · exact absurd (same 'i' rfl) (by decide)
        · exact absurd (subset_of_turned new perm fits (by decide)) lacks
      have others : ∀ clause, clause ≠ .extends →
          Section.of clause (⟨.extends, held⟩ :: rest) = Section.of clause rest :=
        fun clause other => List.filter_cons_of_neg (by simpa using other.symm)
      have mixes := others .mixes (by decide)
      have implements := others .implements (by decide)
      have none : Section.of .extends rest = [] := by simpa [Section.of] using once .extends
      have single : Section.of .extends (⟨.extends, held⟩ :: rest) = [⟨.extends, held⟩] := by
        simpa [Section.of] using none
      rcases sections_order none (mixes ▸ once .mixes)
        (implements ▸ once .implements) with inOrder | ⟨i, m, rfl⟩
      · rw [single, mixes, implements]
        exact .inl (congrArg (⟨.extends, held⟩ :: ·) inOrder)
      · exact .inr ⟨held, i, m, rfl⟩

/-- Where each clause has one section at most, and what is added to them is put into the
    line, they stand in their order. -/
theorem Grows.inOrder {sections : List Section}
    (once : ∀ clause, (Section.of clause sections).length ≤ 1)
    {inserted new front brace before after : Text}
    (grows : Grows (inkOf ((Section.of .extends sections).flatMap Section.tokens))
      (inkOf ((Section.of .mixes sections).flatMap Section.tokens))
      (inkOf ((Section.of .implements sections).flatMap Section.tokens)) inserted new)
    (line : front ++ (inkOf (sections.flatMap Section.tokens) ++ brace) = before ++ after)
    (written : front ++ (new ++ brace) = before ++ inserted ++ after) :
    sections = Section.of .extends sections ++
      (Section.of .mixes sections ++ Section.of .implements sections) := by
  generalize parents : inkOf ((Section.of .extends sections).flatMap Section.tokens) =
    parent at grows
  generalize mixins : inkOf ((Section.of .mixes sections).flatMap Section.tokens) = mixed at grows
  generalize inkOf ((Section.of .implements sections).flatMap Section.tokens) = implemented at grows
  have place := append_inserted line written
  cases grows with
  | parent =>
      have none := Section.inkOf_eq_nil parents
      rcases sections_order none (once _) (once _) with inOrder | ⟨i, m, rfl⟩
      · rw [none]
        exact inOrder
      · -- The text behind what is put in would start both with mixins and with interfaces.
        have behind : inkOf ([⟨.implements, i⟩, ⟨.mixes, m⟩].flatMap Section.tokens) ++ brace =
            mixed ++ implemented ++ brace := by
          rw [List.append_assoc] at written place
          rcases place with ⟨start, old, new⟩ | ⟨turned, perm, new⟩
          · cases start with
            | nil => exact old.trans (List.append_cancel_left new).symm
            | cons c start =>
                have first := congrArg List.head? old
                rw [Section.head?_inkOf] at first
                cases (List.cons.inj new).1
                cases first
          · exact (List.append_inj new perm.length_eq.symm).2.symm
        have first := congrArg List.head? behind
        rw [Section.head?_inkOf, ← mixins] at first
        cases first
  | @mixin p =>
      simp only [List.append_assoc _ _ brace] at written
      rw [List.append_assoc] at written
      rcases parent_first once parents rfl (by decide) (by decide) (by decide) line written with
        inOrder | ⟨held, i, m, rfl⟩
      · exact inOrder
      · exact absurd (Section.inkOf_eq_nil mixins) (by simp [Section.of])
  | @entry p m' =>
      simp only [List.append_assoc _ _ brace] at written
      rw [List.append_assoc] at written
      rcases parent_first once parents rfl (by decide) (by decide) (by decide) line written with
        inOrder | ⟨held, i, m, rfl⟩
      · exact inOrder
      · -- Behind the superclass the line goes on with interfaces, and what is written with mixins.
        have parent : inkOf (Section.tokens ⟨.extends, held⟩) = "extends".toList ++ p := by
          simpa [Section.of, inkOf] using parents
        rw [List.flatMap_cons, inkOf_append, parent, List.append_assoc,
          ← List.append_assoc front] at line
        have behind : front ++ ("extends".toList ++ p) ++
            ("with".toList ++ (m' ++ (",EquatableMixin".toList ++ (implemented ++ brace)))) =
              before ++ ",EquatableMixin".toList ++ after := by
          simpa only [List.append_assoc] using written
        rcases append_inserted line behind with ⟨start, old, new⟩ | ⟨turned, perm, new⟩
        · have same := head_of_inserted (Section.head?_inkOf brace) rfl rfl (by decide) old new
          exact absurd same (by decide)
        · exact absurd (subset_of_turned new perm (by decide) (show 'w' ∈ _ by decide)) (by decide)

theorem Grows.split {parent mixed implemented inserted new : Text}
    (h : Grows parent mixed implemented inserted new) :
    ∃ before after, parent ++ (mixed ++ implemented) = before ++ after ∧
      new = before ++ (inserted ++ after) := by
  cases h with
  | parent => exact ⟨[], _, rfl, rfl⟩
  | mixin => exact ⟨_, _, rfl, rfl⟩
  | entry => exact ⟨_ ++ _, _, (List.append_assoc _ _ _).symm, (List.append_assoc _ _ _).symm⟩

end ValueClass.Dart.Header
