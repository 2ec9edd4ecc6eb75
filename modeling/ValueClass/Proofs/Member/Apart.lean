import Mathlib.Data.List.Nodup
import ValueClass.Proofs.Member.Signature

/-! # The members of a class apart

A text that was written into a class is not written there again, so it matters that no
two members of a class are written alike. Two methods differ in their signatures. A
method starts with a word and a blank or an angle bracket, a constructor with the name of
its class and a parenthesis, or with `const`.
-/

namespace ValueClass

namespace Text

theorem append_cons_inj {a b rest more : Text} {c d : Char} (right : c ∉ b) (left : d ∉ a)
    (same : a ++ c :: rest = b ++ d :: more) : a = b ∧ c = d ∧ rest = more := by
  induction a generalizing b with
  | nil =>
      cases b with
      | nil => exact ⟨rfl, List.cons.inj same⟩
      | cons e tail => exact absurd (by simp [(List.cons.inj same).1]) right
  | cons e tail ih =>
      cases b with
      | nil => exact absurd (by simp [(List.cons.inj same).1]) left
      | cons f others =>
          rw [List.mem_cons, not_or] at right left
          obtain ⟨rfl, behind⟩ := List.cons.inj same
          obtain ⟨rfl, marks⟩ := ih right.2 left.2 behind
          exact ⟨rfl, marks⟩

end Text

namespace Dart

theorem indented_injective {indent : Text} (blank : indent.isBlankText) :
    Function.Injective (indented indent) := by
  have front : ∀ line : Text, (indent ++ line).isBlankText = line.isBlankText := by
    intro line
    rw [Text.isBlankText] at blank
    simp [Text.isBlankText, blank]
  intro a b same
  simp only [indented] at same
  by_cases left : a.isBlankText <;> by_cases right : b.isBlankText
  · simpa [left, right] using same
  · rw [if_pos left, if_neg right] at same
    rw [same, front] at left
    exact absurd left right
  · rw [if_neg left, if_pos right] at same
    rw [← same, front] at right
    exact absurd right left
  · simpa [left, right] using same

theorem indentBlock_injective {indent : Text} (blank : indent.isBlankText)
    (noFeed : '\n' ∉ indent) :
    Function.Injective (Text.indentBlock indent) := by
  intro a b same
  have lines := congrArg Text.lines same
  rw [lines_indentBlock noFeed, lines_indentBlock noFeed] at lines
  rw [← Text.unlines_lines a, ← Text.unlines_lines b,
    List.map_injective_iff.mpr (indented_injective blank) lines]

/-- The words that methods other than `copyWith` start with. -/
def methodWords : List Text :=
  ["Map", "factory", "String", "bool", "int", "List", "None"]

/-- How the text of a method of a class starts, its mark apart. -/
def MethodFront (name t : Text) : Prop :=
  ∃ word stop rest, t = word ++ stop :: rest ∧ (stop = ' ' ∨ stop = '<') ∧
    (word ∈ methodWords ∨ word = name ∧
      (stop = ' ' → ∃ more, rest = "copyWith".toList ++ '(' :: more))

theorem methodFront_of_type (c : ClassDecl) (rest : Text) :
    MethodFront c.name (c.type ++ ' ' :: ("copyWith".toList ++ '(' :: rest)) := by
  simp only [ClassDecl.type, ClassDecl.name, Header.type, Header.nameText]
  cases c.header.generics.isEmpty with
  | true => exact ⟨_, ' ', _, rfl, .inl rfl, .inr ⟨rfl, fun _ => ⟨rest, rfl⟩⟩⟩
  | false =>
      have angle : ∀ word inner more : Text, (word ++ "<".toList ++ inner ++ ">".toList) ++ more =
          word ++ '<' :: (inner ++ ">".toList ++ more) := by
        intro word inner more
        simp
      simp only [Bool.false_eq_true, ↓reduceIte, Option.getD_some]
      rw [angle]
      refine ⟨_, '<', _, rfl, .inr rfl, ?_⟩
      cases c.header.name with
      | none => exact .inl (by decide)
      | some name => exact .inr ⟨rfl, fun same => absurd same (by decide)⟩

theorem methodFront_of_prefix {name t : Text} (word : Text) (stop : Char)
    (starts : word ++ [stop] <+: t) (known : word ∈ methodWords) (stops : stop = ' ' ∨ stop = '<') :
    MethodFront name t := by
  obtain ⟨rest, rfl⟩ := starts
  exact ⟨word, stop, rest, by simp, stops, .inl known⟩

/-- Apart from its mark, the text of a method starts like a method. -/
theorem methodText_front {text : Text} {c : ClassDecl} (member : c ∈ scan text) (s : Surroundings)
    {kind : MemberKind} (method : kind ≠ .constructor) :
    ∃ (marked : Bool) (t : Text),
      methodText s c kind = (if marked then Method.overrideMark else []) ++ t ∧
        MethodFront c.name t := by
  obtain ⟨marked, t, split, line, first, signature⟩ := exists_hasSignature member s method
  have starts : methodStart c kind <+: t := signature.starts.trans first.isPrefix
  refine ⟨marked, t, split, ?_⟩
  have front : ∀ (word : Text) (stop : Char), word ++ [stop] <+: methodStart c kind →
      word ∈ methodWords →
      stop = ' ' ∨ stop = '<' → MethodFront c.name t :=
    fun word stop opens => methodFront_of_prefix word stop (opens.trans starts)
  have factory : ∀ rest :
      Text, "factory".toList ++ [' '] <+: "factory ".toList ++ c.name ++ rest := by
    intro rest
    rw [List.append_assoc]
    exact List.prefix_append _ _
  cases kind with
  | constructor => exact absurd rfl method
  | copyWith =>
      obtain ⟨rest, rfl⟩ := starts
      have open_ : " copyWith(".toList = ' ' :: ("copyWith".toList ++ ['(']) := by decide
      have split : methodStart c .copyWith ++ rest = c.type ++ ' ' ::
          ("copyWith".toList ++ '(' :: rest) := by
        show c.type ++ " copyWith(".toList ++ rest = _
        rw [open_]
        simp only [List.append_assoc, List.cons_append, List.nil_append]
      rw [split]
      exact methodFront_of_type c rest
  | toMap =>
      exact front "Map" '<' (show _ <+: "Map<".toList from by decide) (by decide) (.inr rfl)
  | fromMap =>
      exact front "factory" ' ' (factory _) (by decide) (.inl rfl)
  | toJson =>
      exact front "String" ' ' (show _ <+: "String toJson(".toList from by decide) (by decide)
        (.inl rfl)
  | fromJson =>
      exact front "factory" ' ' (factory _) (by decide) (.inl rfl)
  | toString =>
      exact front "String" ' ' (show _ <+: "String toString(".toList from by decide) (by decide)
        (.inl rfl)
  | equality =>
      exact front "bool" ' ' (show _ <+: "bool ".toList from by decide) (by decide) (.inl rfl)
  | hashCode =>
      exact front "int" ' ' (show _ <+: "int ".toList from by decide) (by decide) (.inl rfl)
  | props =>
      exact front "List" '<' (show _ <+: "List<".toList from by decide) (by decide) (.inr rfl)

theorem MethodFront.unmarked {name t : Text} (front : MethodFront name t) (whole : '\n' ∉ name)
    (marked : Bool) :
    MethodFront name
      (Text.replaceAll Method.overrideMark [] ((if marked then Method.overrideMark else []) ++ t))
        := by
  obtain ⟨word, stop, rest, rfl, stops, known⟩ := front
  have lacks : stop ∉ Method.overrideMark := by rcases stops with rfl | rfl <;> decide
  have inside : '\n' ∈ Method.overrideMark := by decide
  have line : '\n' ∉ word := by
    have each : ∀ w ∈ methodWords, '\n' ∉ w := by decide
    rcases known with known | ⟨rfl, -⟩
    · exact each word known
    · exact whole
  rw [replaceAll_marked, Text.replaceAll_append [] inside line lacks]
  refine ⟨word, stop, _, rfl, stops, known.imp id ?_⟩
  rintro ⟨rfl, copies⟩
  refine ⟨rfl, fun blank => ?_⟩
  obtain ⟨more, rfl⟩ := copies blank
  exact ⟨_, Text.replaceAll_append [] inside (by decide) (by decide)⟩

/-! ## Constructors -/

/-- How the text of a constructor of a class starts. -/
def CtorFront (name t : Text) : Prop :=
  ∃ lead rest, t = lead ++ (name ++ '(' :: rest) ∧ (lead = [] ∨ lead = "const ".toList)

theorem CtorFront.not_methodFront {name t : Text} (label : IsLabel name) (ctor : CtorFront name t) :
    ¬ MethodFront name t := by
  obtain ⟨lead, rest, rfl, leads⟩ := ctor
  rintro ⟨word, stop, more, same, stops, known⟩
  obtain ⟨-, w, mark, after, split, solid, marks⟩ := label
  have blank : ' ' ∉ w := fun member => absurd (solid ' ' member).1 (by decide)
  rcases leads with rfl | rfl
  · rcases known with known | ⟨rfl, -⟩
    · have whole : w ++ mark :: (after ++ rest) = word ++ stop :: more := by
        rw [← List.cons_append, ← List.append_assoc, ← split, ← same]
        simp
      have plain : mark ∉ word := by
        have each : ∀ v ∈ methodWords, '(' ∉ v ∧ '>' ∉ v := by decide
        rcases marks with rfl | rfl
        · exact (each word known).1
        · exact (each word known).2
      have clear : stop ∉ w := by
        rcases stops with rfl | rfl
        · exact blank
        · exact fun member => (solid '<' member).2 rfl
      obtain ⟨-, rfl, -⟩ := Text.append_cons_inj plain clear whole
      rcases marks with rfl | rfl <;> simp at stops
    · have := (List.cons.inj (List.append_cancel_left same)).1
      subst this
      simp at stops
  · rcases known with known | ⟨rfl, copies⟩
    · have each : ∀ v ∈ methodWords, v.head? ≠ some 'c' ∧ v ≠ [] := by decide
      obtain ⟨first, filled⟩ := each word known
      have heads := congrArg List.head? same
      rw [List.head?_append_of_ne_nil _ filled] at heads
      exact first heads.symm
    · -- the name ends at its mark, or it goes on behind it
      rcases List.eq_nil_or_concat after with rfl | ⟨tail, last, rfl⟩
      · obtain ⟨rfl, -⟩ := List.append_inj' split rfl
        have clear : stop ∉ "const".toList := by rcases stops with rfl | rfl <;> decide
        obtain ⟨rfl, rfl, behind⟩ := Text.append_cons_inj (a := "const".toList) blank clear same
        obtain ⟨copied, rfl⟩ := copies rfl
        have third := congrArg (fun t : Text => t[2]?) behind
        change some 'n' = some 'p' at third
        exact absurd third (by decide)
      · have named : word = w ++ mark :: tail := by
          rw [List.concat_eq_append, ← List.cons_append, ← List.append_assoc] at split
          exact (List.append_inj' split rfl).1
        have clear : mark ∉ "const".toList := by rcases marks with rfl | rfl <;> decide
        have whole : word ++ stop :: more = w ++ mark :: (tail ++ stop :: more) := by
          rw [named, List.append_assoc, List.cons_append]
        obtain ⟨-, rfl, -⟩ :=
          Text.append_cons_inj (a := "const".toList) blank clear (same.trans whole)
        simp at marks

theorem IsLead.trim {lead : Text} (h : IsLead lead) :
    lead.trim = [] ∨ lead.trim = "const".toList := by
  rcases h with blank | ⟨before, after, left, right, rfl⟩
  · have none : Text.trim (lead ++ [] ++ []) = [] := Text.trim_eq blank rfl (by simp) (by simp)
    exact .inl (by simpa using none)
  · have gap : Text.isBlankText (' ' :: after) := by
      rw [Text.isBlankText, List.all_cons]
      exact right
    have solid : ∀ c ∈ "const".toList, isBlank c = false := by decide
    have word : Text.trim (before ++ "const".toList ++ ' ' :: after) = "const".toList :=
      Text.trim_eq left gap (fun c rest same => solid c (by rw [same]; simp))
        fun c rest same => solid c (by rw [same]; simp)
    refine .inr (.trans ?_ word)
    simp

theorem lead_ofClass {text : Text} {c : ClassDecl} (member : c ∈ scan text) :
    (KeptParams.ofClass c).lead = [] ∨ (KeptParams.ofClass c).lead = "const".toList := by
  have kept : ∀ kept : KeptParams, (if c.header.isWidget then kept.withKey else kept).lead =
      kept.lead := by
    intro kept
    split <;> rfl
  simp only [KeptParams.ofClass]
  rw [kept]
  split
  · rename_i ctor found
    split
    · obtain ⟨lead, after, isLead, split⟩ := ctor_split member found
      have cut : (KeptParams.ofConstructor c ctor).lead = lead.trim := by
        show (CtorParts.ofText ctor.text c.name).lead = _
        rw [CtorParts.ofText, split, cut?_ctor isLead (isLabel_of_mem_scan member)]
        dsimp only
        split
        · rfl
        · split <;> rfl
      rw [cut]
      exact isLead.trim
    · exact .inl rfl
  · exact .inl rfl

/-- The constructor of a class starts with its name, perhaps behind `const`. -/
theorem ctorFront_text {text : Text} {c : ClassDecl} (member : c ∈ scan text) (style : Style)
    (indent : Text) :
    CtorFront c.name ((ConstructorPlan.ofClass style c).text indent c.name) := by
  have opens : ∀ plan : ConstructorPlan, ∃ rest, plan.listText indent = '(' :: rest := by
    intro plan
    simp only [ConstructorPlan.listText]
    split
    · split
      · exact ⟨_, rfl⟩
      · exact ⟨_, rfl⟩
    · split
      · exact ⟨_, rfl⟩
      · cases plan.kept.style <;> exact ⟨_, rfl⟩
  obtain ⟨rest, list⟩ := opens (ConstructorPlan.ofClass style c)
  refine ⟨Text.when (!(KeptParams.ofClass c).lead.isEmpty)
    ((KeptParams.ofClass c).lead ++ " ".toList),
    rest ++ (Text.when
      (!((KeptParams.ofClass c).rest.isEmpty || (KeptParams.ofClass c).rest.startsWith ";")) " " ++
      (KeptParams.ofClass c).rest), ?_, ?_⟩
  · rw [ConstructorPlan.text, list]
    simp only [List.append_assoc, List.cons_append]
    rfl
  · rcases lead_ofClass member with lead | lead
    · rw [lead]
      exact .inl rfl
    · rw [lead]
      exact .inr rfl

theorem constructorText_ne_memberText {text : Text} {c : ClassDecl} (member : c ∈ scan text)
    {s : Surroundings} (blank : s.indent.isBlankText) (noFeed : '\n' ∉ s.indent)
    {kind : MemberKind} (method : kind ≠ .constructor) :
    constructorText s c ≠ memberText s c kind := by
  have label := isLabel_of_mem_scan member
  have written : memberText s c kind =
      Text.indentBlock s.indent (Text.replaceAll Method.overrideMark [] (methodText s c kind)) := by
    cases kind <;> first | exact absurd rfl method | rfl
  intro same
  rw [written] at same
  have texts := indentBlock_injective blank noFeed same
  obtain ⟨marked, t, split, front⟩ := methodText_front member s method
  have ctor := ctorFront_text member s.style s.indent
  rw [texts, split] at ctor
  exact ctor.not_methodFront label (front.unmarked label.1 marked)

/-! ## All members -/

/-- No two members of a class are written alike. -/
theorem memberText_ne (member : c ∈ scan text) {s : Surroundings} (blank : s.indent.isBlankText)
    (noFeed : '\n' ∉ s.indent) {a b : MemberKind} (other : a ≠ b) :
    memberText s c a ≠ memberText s c b := by
  by_cases left : a = .constructor
  · subst left
    exact constructorText_ne_memberText member blank noFeed other.symm
  · by_cases right : b = .constructor
    · subst right
      exact (constructorText_ne_memberText member blank noFeed left).symm
    · have signature : ∀ {kind : MemberKind}, kind ≠ .constructor →
          ∃ line, FirstLine line (Text.replaceAll Method.overrideMark [] (methodText s c kind)) ∧
            IsSignature c kind line := by
        intro kind method
        obtain ⟨marked, t, split, line, first, signature⟩ := exists_hasSignature member s method
        obtain ⟨front, stop, rfl, lacks⟩ := signature.ends
        exact ⟨_, split ▸ first.unmarked lacks marked, signature⟩
      intro same
      rw [memberText_of_method s c left, memberText_of_method s c right] at same
      have texts := indentBlock_injective blank noFeed same
      obtain ⟨line, first, shows⟩ := signature left
      obtain ⟨line', first', shows'⟩ := signature right
      obtain rfl : line = line' := by rw [← first.takeWhile, ← first'.takeWhile, texts]
      exact other (shows.unique shows' left right)

theorem nodup_replacements (member : c ∈ scan text) {s : Surroundings}
    (blank : s.indent.isBlankText) (noFeed : '\n' ∉ s.indent) (selector : Option MemberKind) :
    ((draftFor s selector c).replacements.map (·.text)).Nodup := by
  rw [(draftFor_pending s selector c).2.2, List.map_filterMap]
  refine (nodup_kindsFor s.style c.header selector).filterMap fun a b t first second => ?_
  obtain ⟨r, replaced, rfl⟩ := Option.map_eq_some_iff.mp first
  obtain ⟨x, replaces, same⟩ := Option.map_eq_some_iff.mp second
  by_contra other
  rw [(replacementFor?_eq_some replaced).2.2, (replacementFor?_eq_some replaces).2.2] at same
  exact memberText_ne member blank noFeed other same.symm

end Dart

end ValueClass
