import ValueClass.Proofs.Infer.Names

/-! # Names that are accepted

A name is accepted when it is an identifier and no word of the language. Variable names are
accepted whatever text they are made for, and the accepted names are the texts that making a
variable name leaves alone.
-/

namespace ValueClass

namespace Text

theorem flatten_splitWhere (cuts : Char → Bool) (t : Text) :
    (splitWhere cuts t).flatten = t.filter fun c => !cuts c := by
  induction t with
  | nil => rfl
  | cons c rest ih =>
      rw [splitWhere]
      cases cut : cuts c with
      | true => rw [if_pos rfl, List.flatten_cons, List.nil_append, ih,
          List.filter_cons_of_neg (by simp [cut])]
      | false =>
          obtain ⟨piece, pieces, split⟩ := List.exists_cons_of_ne_nil (splitWhere_ne_nil cuts rest)
          rw [split, List.flatten_cons] at ih
          rw [if_neg Bool.false_ne_true, split, consFirst, List.flatten_cons, List.cons_append, ih,
            List.filter_cons_of_pos (by simp [cut])]

theorem flatten_filter_nonempty (pieces : List Text) :
    (pieces.filter fun piece => !piece.isEmpty).flatten = pieces.flatten := by
  induction pieces with
  | nil => rfl
  | cons piece rest ih =>
      cases piece with
      | nil => rw [List.filter_cons_of_neg (by simp), ih, List.flatten_cons, List.nil_append]
      | cons c more => rw [List.filter_cons_of_pos (by simp), List.flatten_cons,
          List.flatten_cons, ih]

theorem flatten_runs (keep : Char → Bool) (t : Text) : (t.runs keep).flatten = t.filter keep := by
  rw [runs, flatten_filter_nonempty, flatten_splitWhere]
  simp only [Bool.not_not]

theorem ne_nil_of_mem_runs {keep : Char → Bool} {t piece : Text} (h : piece ∈ t.runs keep) :
    piece ≠ [] := by
  simpa using (List.mem_filter.mp h).2

theorem mem_of_mem_runs {keep : Char → Bool} {t piece : Text} (h : piece ∈ t.runs keep) {c : Char}
    (inside : c ∈ piece) : c ∈ t :=
  (forall_of_mem_splitWhere (List.mem_filter.mp h).1 c inside).1

theorem runs_eq_nil_iff {keep : Char → Bool} {t : Text} :
    t.runs keep = [] ↔ ∀ c ∈ t, keep c = false := by
  constructor
  · intro none c member
    have kept := flatten_runs keep t
    rw [none, List.flatten_nil, eq_comm, List.filter_eq_nil_iff] at kept
    simpa using kept c member
  · intro dropped
    rw [List.eq_nil_iff_forall_not_mem]
    intro piece listed
    obtain ⟨c, more, rfl⟩ := List.exists_cons_of_ne_nil (ne_nil_of_mem_runs listed)
    have kept := Only.of_mem_runs listed c List.mem_cons_self
    rw [dropped c (mem_of_mem_runs listed List.mem_cons_self)] at kept
    cases kept

theorem runs_of_only {keep : Char → Bool} {t : Text} (kept : t.Only keep) (some : t ≠ []) :
    t.runs keep = [t] := by
  have whole : splitWhere (fun c => !keep c) t = [t] :=
    splitWhere_of_forall fun c member => by simp [kept c member]
  rw [runs, whole, List.filter_cons_of_pos (by simp [some]), List.filter_nil]

end Text

namespace Name

open Fresh (IsIdentifier)

/-- A name that the language accepts: an identifier, and none of its own words. -/
structure IsAccepted (name : Text) : Prop where
  identifier : IsIdentifier name
  free : name ∉ reservedWords

/-! ## Accepted names stay as they are -/

variable {name : Text}

theorem clean_eq_self (plain : name.IsPlain) (some : name ≠ []) : dartPolicy.clean name = name := by
  rw [NamePolicy.clean, Text.runs_of_only plain some]
  exact List.append_nil name

theorem avoidClash_eq_self (free : name ∉ reservedWords) : dartPolicy.avoidClash name = name := by
  have unlisted : dartPolicy.reserved.contains name = false := by simpa [dartPolicy] using free
  have unhidden : dartPolicy.builtins.contains name = false := rfl
  rw [NamePolicy.avoidClash, unlisted, unhidden, if_neg (by decide)]

theorem isDigitChar_of_start {c : Char} (start : c.isAlpha ∨ c = '_') : isDigitChar c = false := by
  rcases start with alpha | rfl
  · have plain : Text.isPlain c := by simp [Text.isPlain, Char.isAlphanum, alpha]
    have table : ∀ n < 0x80, (Char.ofNat n).isAlpha → isDigitChar (Char.ofNat n) = false := by
      decide
    have found := table c.toNat (Text.toNat_of_isPlain plain)
    rw [Char.ofNat_toNat] at found
    exact found alpha
  · decide

theorem avoidDigit_eq_self (identifier : IsIdentifier name) :
    dartPolicy.avoidDigit name = name := by
  obtain ⟨c, rest, rfl, start⟩ := identifier.first
  rw [NamePolicy.avoidDigit, List.head?_cons, Option.map_some, Option.getD_some,
    isDigitChar_of_start start, if_neg Bool.false_ne_true]

theorem IsAccepted.varName_eq (accepted : IsAccepted name) : varName name = name := by
  have clean := clean_eq_self accepted.identifier.plain accepted.identifier.ne_nil
  show dartPolicy.avoidDigit (dartPolicy.avoidClash (dartPolicy.clean name)) = name
  rw [clean, avoidClash_eq_self accepted.free, avoidDigit_eq_self accepted.identifier]

/-! ## Every variable name is accepted -/

theorem isAccepted_varName (text : Text) : IsAccepted (varName text) :=
  ⟨isIdentifier_varName text, notMem_reservedWords (dartPolicy.clean text)⟩

/-- Making variable names leads from all texts to the accepted names and leaves just these
    alone, so that making one again changes nothing. -/
theorem varName_retracts :
    (∀ text, IsAccepted (varName text)) ∧ (∀ name, varName name = name ↔ IsAccepted name) ∧
      ∀ text, varName (varName text) = varName text := by
  refine ⟨isAccepted_varName, fun name => ⟨fun same => ?_, IsAccepted.varName_eq⟩, fun text => ?_⟩
  · exact same ▸ isAccepted_varName name
  · exact (isAccepted_varName text).varName_eq

end Name

end ValueClass
