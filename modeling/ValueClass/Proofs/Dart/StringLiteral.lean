import Mathlib.Data.List.Basic
import ValueClass.Json.Read

/-! # String literals

What a string between single quotes stands for. A string is a sequence of 16-bit code
units. Between the quotes every character stands for itself, apart from the quote, a
backslash, a dollar sign and the two characters that end a line: a backslash opens an
escape, a dollar sign an interpolation, and a literal on one line ends with the line.
-/

namespace ValueClass.Dart.StringLiteral

def units (n : Nat) : List Nat :=
  if n < 0x10000 then [n] else [0xD800 + (n - 0x10000) / 0x400, 0xDC00 + (n - 0x10000) % 0x400]

def unitsOf (t : Text) : List Nat :=
  t.flatMap fun c => units c.toNat

def hexValue? (digits : Text) : Option Nat :=
  digits.foldlM (fun n c => (Text.hexDigit? c).map (n * 16 + ·)) 0

def hexEscape? (width : Nat) (t : Text) : Option (List Nat × Text) :=
  if t.length < width then none else (hexValue? (t.take width)).map fun n => ([n], t.drop width)

/-- An escape by up to six hexadecimal digits; it begins behind the opening brace. -/
def codePointEscape? (t : Text) : Option (List Nat × Text) :=
  let digits := t.takeWhile (· != '\x7d')
  match t.dropWhile (· != '\x7d') with
  | [] => none
  | _ :: rest =>
    if digits.isEmpty || 6 < digits.length then none
    else (hexValue? digits).bind fun n => if 0x10FFFF < n then none else some (units n, rest)

/-- The code units of an escape by one character that ends no line. -/
def letterUnits : Char → List Nat
  | 'n' => [10]
  | 'r' => [13]
  | 'f' => [12]
  | 'b' => [8]
  | 't' => [9]
  | 'v' => [11]
  | c => units c.toNat

/-- The code units that an escape stands for, and what follows it. It begins behind the
    backslash. -/
def escape? : Text → Option (List Nat × Text)
  | [] => none
  | 'x' :: rest => hexEscape? 2 rest
  | 'u' :: '\x7b' :: rest => codePointEscape? rest
  | 'u' :: rest => hexEscape? 4 rest
  | c :: rest => if c == '\n' || c == '\r' then none else some (letterUnits c, rest)

/-- The code units up to the closing quote, and what follows it. Every step passes a character. -/
def content? : Nat → Text → Option (List Nat × Text)
  | 0, _ => none
  | _, [] => none
  | fuel + 1, c :: rest =>
    if c == '\'' then some ([], rest)
    else if c == '$' || c == '\n' || c == '\r' then none
    else if c == '\\' then do
      let (escaped, next) ← escape? rest
      let (value, behind) ← content? fuel next
      return (escaped ++ value, behind)
    else do
      let (value, behind) ← content? fuel rest
      return (units c.toNat ++ value, behind)

/-- The value of the literal in single quotes at the front of a text, and what follows it.
    Three quotes open a literal over several lines. -/
def read? : Text → Option (List Nat × Text)
  | '\'' :: '\'' :: '\'' :: _ => none
  | '\'' :: rest => content? rest.length rest
  | _ => none

/-- Every character of a text stands for itself between single quotes. -/
def Verbatim (t : Text) : Prop :=
  ∀ c ∈ t, c ∉ ['\'', '\\', '$', '\n', '\r']

instance (t : Text) : Decidable (Verbatim t) :=
  List.decidableBAll (fun c => c ∉ ['\'', '\\', '$', '\n', '\r']) t

section Lengths

variable {a b t rest : Text} {value : List Nat}

theorem unitsOf_append (a b : Text) : unitsOf (a ++ b) = unitsOf a ++ unitsOf b :=
  List.flatMap_append

theorem unitsOf_cons (c : Char) (t : Text) : unitsOf (c :: t) = units c.toNat ++ unitsOf t :=
  List.flatMap_cons

theorem length_units (n : Nat) : 1 ≤ (units n).length ∧ (units n).length ≤ 2 := by
  rw [units]
  split <;> simp

theorem length_le_unitsOf (t : Text) : t.length ≤ (unitsOf t).length := by
  induction t with
  | nil => exact Nat.le_refl 0
  | cons c rest ih =>
      have one := (length_units c.toNat).1
      rw [unitsOf_cons, List.length_append, List.length_cons]
      omega

theorem length_letterUnits (c : Char) : (letterUnits c).length ≤ (units c.toNat).length := by
  have one := (length_units c.toNat).1
  unfold letterUnits
  split <;> first | exact one | exact Nat.le_refl _

theorem hexEscape?_length {width : Nat} (positive : 0 < width)
    (h : hexEscape? width t = some (value, rest)) :
    ∃ used, t = used ++ rest ∧ value.length ≤ used.length := by
  rw [hexEscape?] at h
  split at h
  · cases h
  · rename_i long
    obtain ⟨n, -, same⟩ := Option.map_eq_some_iff.mp h
    cases same
    refine ⟨t.take width, (List.take_append_drop width t).symm, ?_⟩
    rw [List.length_take, Nat.min_eq_left (Nat.not_lt.mp long)]
    exact positive

theorem codePointEscape?_length (h : codePointEscape? t = some (value, rest)) :
    ∃ used, t = used ++ rest ∧ value.length ≤ used.length := by
  rw [codePointEscape?] at h
  have whole := List.takeWhile_append_dropWhile (p := (· != '\x7d')) (l := t)
  cases closes : t.dropWhile (· != '\x7d') with
  | nil => simp [closes] at h
  | cons brace last =>
      generalize t.takeWhile (· != '\x7d') = digits at h whole
      simp only [closes] at h whole
      split at h
      · cases h
      · rename_i some
        obtain ⟨n, -, known⟩ := Option.bind_eq_some_iff.mp h
        split at known
        · cases known
        · cases known
          refine ⟨digits ++ [brace], by rw [← whole, List.append_assoc]; rfl, ?_⟩
          have two := (length_units n).2
          cases digits with
          | nil => simp at some
          | cons digit more =>
              simp only [List.length_append, List.length_cons]
              omega

theorem escape?_length (h : escape? t = some (value, rest)) :
    ∃ used, t = used ++ rest ∧ value.length ≤ (unitsOf used).length := by
  -- The letter that tells the kind of the escape adds to what is used.
  have behind : ∀ front : Text, (∃ used, t = front ++ (used ++ rest) ∧ value.length ≤ used.length) →
      ∃ used, t = used ++ rest ∧ value.length ≤ (unitsOf used).length := by
    rintro front ⟨used, rfl, short⟩
    refine ⟨front ++ used, (List.append_assoc _ _ _).symm, ?_⟩
    have units := length_le_unitsOf (front ++ used)
    rw [List.length_append] at units
    omega
  unfold escape? at h
  split at h
  · cases h
  · obtain ⟨used, rfl, short⟩ := hexEscape?_length (by decide) h
    exact behind ['x'] ⟨used, rfl, short⟩
  · obtain ⟨used, rfl, short⟩ := codePointEscape?_length h
    exact behind ['u', '\x7b'] ⟨used, rfl, short⟩
  · obtain ⟨used, rfl, short⟩ := hexEscape?_length (by decide) h
    exact behind ['u'] ⟨used, rfl, short⟩
  · rename_i c last _ _ _
    split at h
    · cases h
    · cases h
      refine ⟨[c], rfl, ?_⟩
      rw [unitsOf_cons, List.length_append]
      exact Nat.le_trans (length_letterUnits c) (Nat.le_add_right _ _)

end Lengths

/-! ## Soundness and completeness -/

variable {t key rest : Text} {value : List Nat} {fuel : Nat}

/-- What is read ends in front of a quote. It has as many code units as its value only if
    every character stands for itself, as an escape is longer than what it stands for. -/
theorem content?_sound (h : content? fuel t = some (value, rest)) :
    ∃ used, t = used ++ '\'' :: rest ∧ value.length ≤ (unitsOf used).length ∧
      (value.length = (unitsOf used).length → Verbatim used) := by
  induction fuel generalizing t value with
  | zero => cases h
  | succ fuel ih =>
      cases t with
      | nil => cases h
      | cons c others =>
          rw [content?] at h
          split at h
          · rename_i closes
            cases h
            exact ⟨[], by rw [beq_iff_eq.mp closes]; rfl, Nat.le_refl _,
              fun _ _ none => nomatch none⟩
          · rename_i within
            split at h
            · cases h
            · rename_i allowed
              split at h
              · rename_i slash
                obtain ⟨⟨escaped, next⟩, some, h⟩ := Option.bind_eq_some_iff.mp h
                obtain ⟨⟨inner, last⟩, read, same⟩ := Option.bind_eq_some_iff.mp h
                cases same
                obtain ⟨first, rfl, short⟩ := escape?_length some
                obtain ⟨used, rfl, shorter, -⟩ := ih read
                have one := (length_units c.toNat).1
                refine ⟨c :: (first ++ used), by simp, ?_,
                  fun long => absurd long (Nat.ne_of_lt ?_)⟩ <;>
                  · rw [unitsOf_cons, unitsOf_append]
                    simp only [List.length_append]
                    omega
              · rename_i plain
                obtain ⟨⟨inner, last⟩, read, same⟩ := Option.bind_eq_some_iff.mp h
                cases same
                obtain ⟨used, rfl, shorter, verbatim⟩ := ih read
                refine ⟨c :: used, rfl, ?_, fun long => ?_⟩
                · rw [unitsOf_cons, List.length_append, List.length_append]
                  exact Nat.add_le_add_left shorter _
                · rw [unitsOf_cons, List.length_append, List.length_append] at long
                  intro d member
                  rcases List.mem_cons.mp member with rfl | member
                  · have signs : ¬ (d = '$' ∨ d = '\n' ∨ d = '\r') := by
                      simpa [or_assoc] using allowed
                    have quote : d ≠ '\'' := by simpa using within
                    have slash : d ≠ '\\' := by simpa using plain
                    simp [quote, slash, signs]
                  · exact verbatim (Nat.add_left_cancel long) d member

theorem content?_complete (verbatim : Verbatim key) (fuel : Nat) (enough : key.length < fuel) :
    content? fuel (key ++ '\'' :: rest) = some (unitsOf key, rest) := by
  induction key generalizing fuel with
  | nil =>
      obtain ⟨fuel, rfl⟩ := Nat.exists_eq_succ_of_ne_zero (Nat.ne_of_gt enough)
      rfl
  | cons c more ih =>
      obtain ⟨fuel, rfl⟩ := Nat.exists_eq_succ_of_ne_zero (Nat.ne_of_gt (Nat.zero_lt_of_lt enough))
      have inner := ih (fun d member => verbatim d (List.mem_cons_of_mem _ member)) fuel
          (Nat.lt_of_succ_lt_succ enough)
      have plain := verbatim c List.mem_cons_self
      simp only [List.mem_cons, List.not_mem_nil, or_false, not_or] at plain
      rw [List.cons_append, content?, inner]
      simp [plain, unitsOf_cons]

/-- Between two single quotes a text is a literal of its own with the text as its value
    exactly if every character of it stands for itself. -/
theorem read?_quoted_iff (apart : rest.head? ≠ some '\'') :
    read? ('\'' :: (key ++ '\'' :: rest)) = some (unitsOf key, rest) ↔ Verbatim key := by
  constructor
  · intro h
    unfold read? at h
    split at h
    · cases h
    · rename_i same
      cases same
      obtain ⟨used, same, -, verbatim⟩ := content?_sound h
      obtain rfl : key = used := by
        have lengths := congrArg List.length same
        simp only [List.length_append, List.length_cons] at lengths
        exact (List.append_inj same (by omega)).1
      exact verbatim rfl
    · cases h
  · intro verbatim
    have single : read? ('\'' :: (key ++ '\'' :: rest)) =
        content? (key ++ '\'' :: rest).length (key ++ '\'' :: rest) := by
      unfold read?
      split
      · rename_i same
        cases key with
        | nil =>
            cases same
            exact absurd rfl apart
        | cons c more =>
            obtain ⟨rfl, -⟩ := List.cons.inj (List.cons.inj same).2
            exact absurd List.mem_cons_self (verbatim _ List.mem_cons_self)
      · rename_i same
        cases same
        rfl
      · rename_i other
        exact absurd rfl (other _)
    rw [single]
    exact content?_complete verbatim _ (by simp)

/-- The value of the first literal of a text, and what follows it. -/
def first? (t : Text) : Option (List Nat × Text) :=
  read? (t.dropWhile (· != '\''))

theorem first?_quoted_iff {front : Text} (quiet : '\'' ∉ front) (apart : rest.head? ≠ some '\'') :
    first? (front ++ '\'' :: (key ++ '\'' :: rest)) = some (unitsOf key, rest) ↔ Verbatim key := by
  have passed : ∀ c ∈ front, (c != '\'') = true := by
    intro c member
    rw [bne_iff_ne]
    rintro rfl
    exact quiet member
  rw [first?, List.dropWhile_append_of_pos passed, List.dropWhile_cons_of_neg (by simp)]
  exact read?_quoted_iff apart

example : read? ("'a\\'b': 1".toList) = some ([97, 39, 98], ": 1".toList) := by decide

end ValueClass.Dart.StringLiteral
