import ValueClass.Proofs.Fresh.ClassHeader
import ValueClass.Proofs.Infer.Inferred
import ValueClass.Proofs.Name.Accepted

/-! # The opening line of an inferred class

The fallback for a text without usable characters is chosen before underscores are dropped
from a class name. A text whose only usable characters are underscores is left with an empty
name, and the line that opens its class is no header; every other text has an accepted name,
and a header.
-/

namespace ValueClass

namespace Name

/-- Whether a class can be named after a text: it has a letter or a digit of ASCII, or no
    usable character at all, and then the fallback names the class. -/
def NamesClass (text : Text) : Prop :=
  '_' ∈ text → ∃ c ∈ text, c.isAlphanum

instance (text : Text) : Decidable (NamesClass text) :=
  inferInstanceAs (Decidable ('_' ∈ text → ∃ c ∈ text, c.isAlphanum))

theorem isPlain_of_isAlphanum {c : Char} (h : c.isAlphanum) : Text.isPlain c := by
  simp [Text.isPlain, h]

/-! ## Letters and digits under capitals -/

theorem forall_isPlain {p : Char → Prop}
    (table : ∀ n < 0x80, Text.isPlain (Char.ofNat n) → p (Char.ofNat n)) {c : Char}
    (plain : Text.isPlain c) : p c := by
  have found := table c.toNat (Text.toNat_of_isPlain plain)
  rw [Char.ofNat_toNat] at found
  exact found plain

theorem upperChar_of_isPlain {c : Char} (plain : Text.isPlain c) : upperChar c = [c.toUpper] := by
  rw [upperChar, if_pos (Text.toNat_of_isPlain plain)]

theorem isAlphanum_toUpper {c : Char} (plain : Text.isPlain c) :
    c.toUpper.isAlphanum = c.isAlphanum :=
  forall_isPlain (p := fun c => c.toUpper.isAlphanum = c.isAlphanum) (by decide) plain

/-- Whether a letter or a digit stands in a text. -/
def hasAlphanum (t : Text) : Bool :=
  t.any Char.isAlphanum

theorem hasAlphanum_iff {t : Text} : hasAlphanum t ↔ ∃ c ∈ t, c.isAlphanum :=
  List.any_eq_true

theorem hasAlphanum_append (a b : Text) : hasAlphanum (a ++ b) = (hasAlphanum a || hasAlphanum b) :=
  List.any_append

theorem hasAlphanum_capitalize {t : Text} (plain : t.IsPlain) :
    hasAlphanum (capitalize t) = hasAlphanum t := by
  cases t with
  | nil => rfl
  | cons c rest =>
      have first := plain c List.mem_cons_self
      rw [capitalize, upperChar_of_isPlain first, List.singleton_append, hasAlphanum, List.any_cons,
        isAlphanum_toUpper first]
      rfl

theorem hasAlphanum_flatMap_capitalize {pieces : List Text}
    (plain : ∀ piece ∈ pieces, piece.IsPlain) :
    hasAlphanum (pieces.flatMap capitalize) = hasAlphanum pieces.flatten := by
  induction pieces with
  | nil => rfl
  | cons piece rest ih =>
      obtain ⟨first, others⟩ := List.forall_mem_cons.mp plain
      rw [List.flatMap_cons, List.flatten_cons, hasAlphanum_append, hasAlphanum_append,
        hasAlphanum_capitalize first, ih others]

/-- A cleaned name has a letter or a digit just when the text has one, or no usable character. -/
theorem hasAlphanum_clean (text : Text) :
    hasAlphanum (dartPolicy.clean text) ↔ NamesClass text := by
  have plain : ∀ piece ∈ text.runs Text.isPlain, piece.IsPlain := fun _ => .of_mem_runs
  have whole := Text.flatten_runs Text.isPlain text
  rw [NamePolicy.clean, NamesClass]
  cases runs : text.runs Text.isPlain with
  | nil =>
      have unusable := Text.runs_eq_nil_iff.mp runs
      refine iff_of_true (by decide) fun underscore => ?_
      exact absurd (unusable '_' underscore) (by decide)
  | cons first rest =>
      rw [runs] at plain whole
      rw [List.flatten_cons] at whole
      obtain ⟨-, others⟩ := List.forall_mem_cons.mp plain
      have kept : hasAlphanum (first ++ rest.flatMap capitalize) =
          hasAlphanum (text.filter Text.isPlain) := by
        rw [hasAlphanum_append, hasAlphanum_flatMap_capitalize others, ← hasAlphanum_append, whole]
      dsimp only
      rw [kept, hasAlphanum_iff]
      constructor
      · rintro ⟨c, member, alphanum⟩ -
        exact ⟨c, (List.mem_filter.mp member).1, alphanum⟩
      · intro named
        have listed : first ∈ text.runs Text.isPlain := runs ▸ List.mem_cons_self
        have some : first ≠ [] := Text.ne_nil_of_mem_runs listed
        obtain ⟨c, more, rfl⟩ := List.exists_cons_of_ne_nil some
        have member : c ∈ text.filter Text.isPlain := whole ▸ List.mem_cons_self
        obtain ⟨listed, usable⟩ := List.mem_filter.mp member
        -- a usable character is a letter, a digit or the underscore that asks for one of them
        obtain ⟨d, inside, alphanum⟩ : ∃ d ∈ text, d.isAlphanum := by
          rcases Bool.or_eq_true_iff.mp usable with alphanum | underscore
          · exact ⟨c, listed, alphanum⟩
          · exact named (beq_iff_eq.mp underscore ▸ listed)
        exact ⟨d, List.mem_filter.mpr ⟨inside, isPlain_of_isAlphanum alphanum⟩, alphanum⟩

/-! ## Class names -/

theorem pascal_ne_nil_iff {t : Text} (plain : t.IsPlain) : pascal t ≠ [] ↔ hasAlphanum t := by
  let keep := fun c : Char => !(c == '_' || c == '-' || isBlank c)
  have keeps : ∀ c ∈ t, keep c = c.isAlphanum := fun c member =>
    forall_isPlain (p := fun c => keep c = c.isAlphanum) (by decide) (plain c member)
  have raised : ∀ piece ∈ t.runs keep, capitalize piece ≠ [] := by
    intro piece listed none
    obtain ⟨c, more, rfl⟩ := List.exists_cons_of_ne_nil (Text.ne_nil_of_mem_runs listed)
    rw [capitalize,
      upperChar_of_isPlain (plain c (Text.mem_of_mem_runs listed List.mem_cons_self))] at none
    cases none
  have none : pascal t = [] ↔ t.runs keep = [] := by
    rw [show pascal t = (t.runs keep).flatMap capitalize from rfl, List.flatMap_eq_nil_iff,
      List.eq_nil_iff_forall_not_mem]
    exact forall₂_congr fun piece listed => iff_of_false (raised piece listed) id
  rw [Ne, none, Text.runs_eq_nil_iff, hasAlphanum_iff, not_forall]
  simp only [Classical.not_imp]
  refine exists_congr fun c => and_congr_right fun member => ?_
  rw [keeps c member, Bool.not_eq_false]

theorem className_ne_nil_iff {text : Text} : className text ≠ [] ↔ NamesClass text := by
  rw [← hasAlphanum_clean, ← pascal_ne_nil_iff (isPlain_clean text)]
  show dartPolicy.avoidDigit (dartPolicy.avoidClash (pascal (dartPolicy.clean text))) ≠ [] ↔ _
  constructor
  · rintro some none
    rw [none] at some
    exact some rfl
  · intro some
    exact (isIdentifier_avoidDigit (isPlain_avoidClash (isPlain_pascal (isPlain_clean text)))
      (avoidClash_ne_nil some)).ne_nil

theorem isAccepted_className_iff {text : Text} : IsAccepted (className text) ↔ NamesClass text := by
  rw [← className_ne_nil_iff]
  constructor
  · intro accepted
    exact accepted.identifier.ne_nil
  · intro some
    exact ⟨isIdentifier_className some, notMem_reservedWords (pascal (dartPolicy.clean text))⟩

end Name

namespace Infer

open Dart Fresh

/-- The class of a sketch opens with its name and a brace. -/
theorem lines_inferredClass (indent : Text) (sketch : ObjectSketch) :
    ∃ rest, (inferredClass indent sketch).lines = headerLine
      (Name.className sketch.named) false :: rest := by
  have line : headerLine (Name.className sketch.named) false =
      "class ".toList ++ (Name.className sketch.named ++ " \x7b".toList) := rfl
  have whole : '\n' ∉ headerLine (Name.className sketch.named) false := by
    rw [line, List.mem_append, List.mem_append, not_or, not_or]
    exact ⟨by decide, (Name.isPlain_className sketch.named).notMem (by decide), by decide⟩
  have opening : ∀ fields, ∃ rest, (skeleton (Name.className sketch.named) fields indent).lines =
      headerLine (Name.className sketch.named) false :: rest := by
    intro fields
    have text : skeleton (Name.className sketch.named) fields indent =
        headerLine (Name.className sketch.named) false ++ '\n' ::
          ((fields.flatMap fun p => fieldLine indent p.1 p.2) ++ "\x7d".toList) := by
      rw [skeleton_eq, line, List.append_assoc, List.append_assoc]
      rfl
    rw [text, Text.lines_append_feed, Text.lines_of_notMem whole]
    exact ⟨_, rfl⟩
  rw [inferredClass_lines]
  exact opening _

theorem isHeader_opening_iff (text : Text) :
    Header.isHeader (headerLine (Name.className text) false) ↔ Name.NamesClass text := by
  rw [← Name.className_ne_nil_iff]
  constructor
  · rintro header none
    rw [none] at header
    exact absurd header (by decide)
  · intro some
    exact isHeader_headerLine (Name.isIdentifier_className some) false

/-- A class name is accepted just when a class can be named after its text. Each class that is
    inferred from a document, the one of the outermost object first, has the name of some text,
    and its first line is a header just when a class can be named after that text. -/
theorem className_opens_iff (text : Text) :
    (Name.IsAccepted (Name.className text) ↔ Name.NamesClass text) ∧
      ∀ {style test engine source found},
        ((classes style test engine source text).run freshNamer).1 = .ok found →
        (∃ root more, found = root :: more ∧ root.name = Name.className text) ∧
        ∀ c ∈ found, ∃ named header rest, c.name = Name.className named ∧ c.lines = header :: rest ∧
          (Header.isHeader header ↔ Name.NamesClass named) := by
  refine ⟨Name.isAccepted_className_iff, ?_⟩
  intro style test engine source found ok
  obtain ⟨indent, members, -, rfl⟩ := classes_eq_ok_iff.mp ok
  refine ⟨⟨inferredClass indent ⟨text, (ObjectSketch.ofMembers (dateRule style test) members).1⟩, _,
    rfl, rfl⟩, ?_⟩
  intro c kept
  obtain ⟨sketch, -, rfl⟩ := List.mem_map.mp (mem_of_mem_dropRepeats kept)
  obtain ⟨rest, lines⟩ := lines_inferredClass indent sketch
  exact ⟨sketch.named, _, rest, rfl, lines, isHeader_opening_iff sketch.named⟩

/-- The object under a key of underscores alone has a class without a name. -/
theorem className_opens_iff_underscore :
    let source : JsonSource := .value (.obj [("a", .int 1), ("_", .obj [("x", .int 2)])])
    ∃ found, ((classes {} .calendar .plain source "root").run freshNamer).1 = .ok found ∧
      found.map (·.name) = ["Root".toList, []] ∧
      ∀ c ∈ found, ∃ named header rest, c.name = Name.className named ∧ c.lines = header :: rest ∧
        (Header.isHeader header ↔ Name.NamesClass named) := by
  intro source
  have members : source.members = .ok [("a", .int 1), ("_", .obj [("x", .int 2)])] := rfl
  have accepted : Accepted {} source "  " [("a", .int 1), ("_", .obj [("x", .int 2)])] :=
    ⟨members, rfl⟩
  obtain ⟨found, ok, names⟩ :
      ∃ found, ((classes {} .calendar .plain source "root").run freshNamer).1 = .ok found ∧
      found.map (·.name) = ["Root".toList, []] :=
    ⟨_, classes_eq_ok_iff.mpr ⟨_, _, accepted, rfl⟩, by decide +kernel⟩
  exact ⟨found, ok, names, ((className_opens_iff "root").2 ok).2⟩

end Infer

end ValueClass
