import Mathlib.Data.List.Basic
import Mathlib.Tactic.Common
import ValueClass.Proofs.Text.Lines
import ValueClass.Workspace.Utf8

/-! # Reading back what is written

The bytes of a text stand for that text, character by character: the first byte of a character
says how many follow, and the ranges that are refused are those that no character has. A file is
read with line feeds as its line ends, whatever ends its rows. The lines that are read stand for the
rows one by one; a row that a carriage return ends comes back with another line end.
-/

namespace ValueClass.Utf8

variable {n v : Nat} {rest : List UInt8}

theorem toNat_ofNat (small : n < 256) : (UInt8.ofNat n).toNat = n := by
  rw [UInt8.toNat_ofNat', Nat.mod_eq_of_lt small]

/-- A byte that continues a character, as it is written. -/
def tail (n : Nat) : UInt8 :=
  UInt8.ofNat (n % 64 + 0x80)

theorem toNat_tail (n : Nat) : (tail n).toNat = n % 64 + 0x80 :=
  toNat_ofNat (by omega)

theorem readTails_tail {tails low high bits seen : Nat} (above : low ≤ n % 64 + 0x80)
    (below : n % 64 + 0x80 ≤ high) :
    readTails (tails + 1) low high bits seen (tail n :: rest) =
      readTails tails 0x80 0xBF (bits * 64 + n % 64) (seen + 1) rest := by
  rw [readTails, toNat_tail]
  rw [if_pos (by simp [above, below]), Nat.add_sub_cancel]

theorem readTails_tail_inner {tails bits seen : Nat} :
    readTails (tails + 1) 0x80 0xBF bits seen (tail n :: rest) =
      readTails tails 0x80 0xBF (bits * 64 + n % 64) (seen + 1) rest :=
  readTails_tail (by omega) (by omega)

theorem lead?_one (low : n ≤ 0x7F) : lead? (UInt8.ofNat n) = some { tails := 0, bits := n } := by
  rw [lead?, toNat_ofNat (by omega)]
  simp [low]

theorem lead?_two (low : 2 ≤ n) (high : n < 0x20) :
    lead? (UInt8.ofNat (n + 0xC0)) = some { tails := 1, bits := n } := by
  rw [lead?, toNat_ofNat (by omega)]
  rw [if_neg (by omega), if_neg (by omega), if_pos (by omega), Nat.add_sub_cancel]

theorem lead?_three (high : n < 0x10) :
    lead? (UInt8.ofNat (n + 0xE0)) = some
      { tails := 2, low := if n = 0 then 0xA0 else 0x80, high := if n = 0xD then 0x9F
        else 0xBF, bits := n } := by
  rw [lead?, toNat_ofNat (by omega)]
  rw [if_neg (by omega), if_neg (by omega), if_neg (by omega)]
  by_cases least : n = 0
  · subst least
    rfl
  by_cases surrogate : n = 0xD
  · subst surrogate
    rfl
  rw [if_neg (by simp; omega), if_neg (by simp; omega), if_pos (by omega), Nat.add_sub_cancel,
    if_neg least, if_neg surrogate]

theorem lead?_four (high : n ≤ 4) :
    lead? (UInt8.ofNat (n + 0xF0)) = some
      { tails := 3, low := if n = 0 then 0x90 else 0x80, high := if n = 4 then 0x8F
        else 0xBF, bits := n } := by
  have each : ∀ n ≤ 4, lead? (UInt8.ofNat (n + 0xF0)) = some
      { tails := 3, low := if n = 0 then 0x90 else 0x80, high := if n = 4 then 0x8F
        else 0xBF, bits := n } := by
    decide
  exact each n high

/-- A character is read back from its bytes, whatever follows them. -/
theorem readChar_encode (c : Char) (rest : List UInt8) :
    ∃ byte tail, String.utf8EncodeChar c = byte :: tail ∧
      readChar byte (tail ++ rest) = .ok (c, tail.length + 1) := by
  have whole : Char.ofNat c.val.toNat = c := Char.ofNat_toNat c
  have valid : c.val.toNat < 0xD800 ∨ 0xDFFF < c.val.toNat ∧ c.val.toNat < 0x110000 := c.valid
  rw [String.utf8EncodeChar]
  generalize c.val.toNat = v at whole valid
  by_cases one : v ≤ 0x7F
  · rw [if_pos one]
    refine ⟨_, _, rfl, ?_⟩
    rw [readChar, lead?_one one]
    simp [readTails, Except.map, whole]
  rw [if_neg one]
  by_cases two : v ≤ 0x7FF
  · rw [if_pos two]
    refine ⟨_, _, rfl, ?_⟩
    rw [readChar, Nat.mod_eq_of_lt (show v / 64 < 0x20 by omega), lead?_two (by omega) (by omega)]
    have bits : v / 64 * 64 + v % 64 = v := Nat.div_add_mod' v 64
    show (readTails 1 0x80 0xBF (v / 64) 1 (tail v :: rest)).map _ = _
    rw [readTails_tail_inner, readTails, bits, Except.map, whole]
    rfl
  rw [if_neg two]
  by_cases three : v ≤ 0xFFFF
  · rw [if_pos three]
    refine ⟨_, _, rfl, ?_⟩
    rw [readChar, Nat.mod_eq_of_lt (show v / 4096 < 0x10 by omega), lead?_three (by omega)]
    have bits : (v / 4096 * 64 + v / 64 % 64) * 64 + v % 64 = v := by omega
    show (readTails 2 _ _ (v / 4096) 1 (tail (v / 64) :: tail v :: rest)).map _ = _
    rw [readTails_tail _ _, readTails_tail_inner, readTails, bits, Except.map, whole]
    · rfl
    · dsimp only
      split <;> omega
    · dsimp only
      split <;> omega
  · rw [if_neg three]
    refine ⟨_, _, rfl, ?_⟩
    rw [readChar, Nat.mod_eq_of_lt (show v / 262144 < 0x08 by omega), lead?_four (by omega)]
    have bits : ((v / 262144 * 64 + v / 4096 % 64) * 64 + v / 64 % 64) * 64 + v % 64 = v := by omega
    show (readTails 3 _ _ (v / 262144) 1 (tail (v / 4096) :: tail (v / 64) :: tail v :: rest)).map
        _ = _
    rw [readTails_tail _ _, readTails_tail_inner, readTails_tail_inner, readTails, bits, Except.map,
      whole]
    · rfl
    · dsimp only
      split <;> omega
    · dsimp only
      split <;> omega

/-! ## Whole texts -/

@[simp] theorem encode_append (a b : Text) : encode (a ++ b) = encode a ++ encode b :=
  List.flatMap_append

theorem decodeFrom_encode (t : Text) {fuel position : Nat} (enough : (encode t).length ≤ fuel) :
    decodeFrom fuel position (encode t) = .ok t := by
  induction t generalizing fuel position with
  | nil => cases fuel <;> rfl
  | cons c rest ih =>
      obtain ⟨byte, tail, bytes, read⟩ := readChar_encode c (encode rest)
      have whole : encode (c :: rest) = byte :: (tail ++ encode rest) := by
        rw [encode, List.flatMap_cons, bytes]
        rfl
      rw [whole, List.length_cons, List.length_append] at enough
      obtain ⟨fuel, rfl⟩ : ∃ more, fuel = more + 1 := ⟨fuel - 1, by omega⟩
      rw [whole, decodeFrom, read]
      dsimp only
      rw [List.drop_succ_cons, List.drop_left, ih (by omega)]
      rfl

/-- What is written as bytes is read from them. -/
@[simp] theorem decode_encode (t : Text) : decode (encode t) = .ok t :=
  decodeFrom_encode t (Nat.le_refl _)

theorem encode_inj {a b : Text} : encode a = encode b ↔ a = b := by
  refine ⟨fun same => ?_, congrArg encode⟩
  have read : decode (encode a) = decode (encode b) := congrArg decode same
  simpa using read

section Rows

open Text (closing consFirst ended)

/-- The rows of a text, each with the line end that closes it. -/
def rows : Text → List Text
  | [] => [[]]
  | '\r' :: '\n' :: rest => ['\r', '\n'] :: rows rest
  | '\r' :: rest => ['\r'] :: rows rest
  | '\n' :: rest => ['\n'] :: rows rest
  | c :: rest => consFirst c (rows rest)

theorem rows_ne_nil (t : Text) : rows t ≠ [] := by
  fun_cases rows t with
  | case1 | case2 | case3 | case4 => simp
  | case5 c rest => cases rows rest <;> simp [consFirst]

theorem flatten_rows (t : Text) : (rows t).flatten = t := by
  fun_induction rows t with
  | case1 => rfl
  | case2 rest ih | case3 rest _ ih | case4 rest ih => simp [ih]
  | case5 c rest _ _ _ ih =>
      cases cut : rows rest with
      | nil => exact absurd cut (rows_ne_nil rest)
      | cons first more =>
          rw [cut] at ih
          simpa [consFirst] using ih

theorem normalizeLineEnds_cons {c : Char} (other : c ≠ '\r') (rest : Text) :
    normalizeLineEnds (c :: rest) = c :: normalizeLineEnds rest := by
  rw [normalizeLineEnds]
  · rintro _ rfl
    exact absurd rfl other
  · exact other

theorem normalizeLineEnds_pair (rest : Text) :
    normalizeLineEnds ('\r' :: '\n' :: rest) = '\n' :: normalizeLineEnds rest := by
  rw [normalizeLineEnds]

theorem normalizeLineEnds_lone {rest : Text} (lone : ∀ more, rest = '\n' :: more → False) :
    normalizeLineEnds ('\r' :: rest) = '\n' :: normalizeLineEnds rest := by
  rw [normalizeLineEnds]
  exact lone

/-- Row by row, what is read of a text is its lines. -/
theorem rows_normalize (t : Text) :
    (rows t).map normalizeLineEnds = ended (normalizeLineEnds t).lines := by
  fun_induction rows t with
  | case1 => rfl
  | case2 rest ih =>
      rw [List.map_cons, ih, normalizeLineEnds_pair rest, Text.ended_lines_feed]
      rfl
  | case3 rest lone ih =>
      rw [List.map_cons, ih, normalizeLineEnds_lone lone, Text.ended_lines_feed]
      rfl
  | case4 rest ih =>
      rw [List.map_cons, ih, normalizeLineEnds_cons (by decide) rest, Text.ended_lines_feed]
      rfl
  | case5 c rest _ other noFeed ih =>
      rw [normalizeLineEnds_cons other, Text.lines_cons noFeed,
        Text.ended_consFirst (Text.lines_ne_nil _), ← ih]
      cases cut : rows rest with
      | nil => exact absurd cut (rows_ne_nil rest)
      | cons first more =>
          rw [consFirst, List.map_cons, normalizeLineEnds_cons other]
          rfl

theorem line_of_row {t row : Text} {above below : List Text}
    (cut : rows t = above ++ row :: below) :
    ∃ top line bottom, (normalizeLineEnds t).lines = top ++ line :: bottom ∧
      top.length = above.length ∧
      bottom.length = below.length ∧ normalizeLineEnds row = line ++ closing bottom := by
  have same := rows_normalize t
  rw [cut, List.map_append, List.map_cons] at same
  obtain ⟨top, line, bottom, place, higher, lower, read⟩ := Text.split_of_ended same.symm
  rw [List.length_map] at higher lower
  exact ⟨top, line, bottom, place, higher, lower, read⟩

theorem normalizeLineEnds_eq_iff (t : Text) : normalizeLineEnds t = t ↔ '\r' ∉ t := by
  fun_induction normalizeLineEnds t with
  | case1 => simp
  | case2 rest ih => simp
  | case3 rest lone ih => simp
  | case4 c rest _ other ih => simp [ih, Ne.symm other]

end Rows

end ValueClass.Utf8
