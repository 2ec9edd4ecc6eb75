import ValueClass.Text.Quoted

/-! # Files as UTF-8 text

The bytes of a file and the text they stand for. The first byte of a character
says how many bytes follow and in what range the next one lies; the others lie
between `0x80` and `0xBF`.
-/

namespace ValueClass.Utf8

inductive Fault where
  /-- No character starts with this byte. -/
  | invalidStart
  /-- A byte cannot continue the character. -/
  | invalidContinuation
  /-- The bytes end inside a character. -/
  | unexpectedEnd
  deriving Repr, DecidableEq

def Fault.wording : Fault → Text
  | .invalidStart => "invalid start byte"
  | .invalidContinuation => "invalid continuation byte"
  | .unexpectedEnd => "unexpected end of data"

/-- A fault, the position of the first byte it concerns and all these bytes. -/
structure DecodeError where
  fault : Fault
  /-- The position of the first byte. -/
  position : Nat
  byte : UInt8
  count : Nat
  deriving Repr, DecidableEq

def DecodeError.message (e : DecodeError) : Text :=
  let place : Text :=
    if e.count ≤ 1 then
      "byte 0x" ++ Text.hex 2 e.byte.toNat ++ " in position " ++ Text.ofNat e.position
    else
      "bytes in position " ++ Text.ofNat e.position ++ "-" ++ Text.ofNat (e.position + e.count - 1)
  "'utf-8' codec can't decode " ++ place ++ ": " ++ e.fault.wording

structure Lead where
  tails : Nat
  low : Nat := 0x80
  high : Nat := 0xBF
  /-- The bits of the code point that the first byte holds. -/
  bits : Nat
  deriving Repr, DecidableEq

def lead? (byte : UInt8) : Option Lead :=
  let n := byte.toNat
  if n ≤ 0x7F then some { tails := 0, bits := n }
  else if n < 0xC2 then none
  else if n ≤ 0xDF then some { tails := 1, bits := n - 0xC0 }
  else if n == 0xE0 then some { tails := 2, low := 0xA0, bits := 0 }
  else if n == 0xED then some { tails := 2, high := 0x9F, bits := 0xD }
  else if n ≤ 0xEF then some { tails := 2, bits := n - 0xE0 }
  else if n == 0xF0 then some { tails := 3, low := 0x90, bits := 0 }
  else if n ≤ 0xF3 then some { tails := 3, bits := n - 0xF0 }
  else if n == 0xF4 then some { tails := 3, high := 0x8F, bits := 4 }
  else none

/-- Read the bytes that follow a first one: the code point, or a fault with
    the number of bytes it concerns. -/
def readTails : Nat → Nat → Nat → Nat → Nat → List UInt8 → Except (Fault × Nat) Nat
  | 0, _, _, bits, _, _ => .ok bits
  | _ + 1, _, _, _, seen, [] => .error (.unexpectedEnd, seen)
  | tails + 1, low, high, bits, seen, byte :: rest =>
    let n := byte.toNat
    if low ≤ n && n ≤ high then readTails tails 0x80 0xBF (bits * 64 + (n - 0x80)) (seen + 1) rest
    else .error (.invalidContinuation, seen)

/-- Read one character: it with the number of its bytes, or a fault with the
    number of bytes it concerns. -/
def readChar (byte : UInt8) (rest : List UInt8) : Except (Fault × Nat) (Char × Nat) :=
  match lead? byte with
  | none => .error (.invalidStart, 1)
  | some lead =>
    (readTails lead.tails lead.low lead.high lead.bits 1 rest).map fun n =>
      (Char.ofNat n, lead.tails + 1)

/-- The text of bytes from a position on. -/
def decodeFrom : Nat → Nat → List UInt8 → Except DecodeError Text
  | 0, _, _ => .ok []
  | _ + 1, _, [] => .ok []
  | fuel + 1, position, byte :: rest =>
    match readChar byte rest with
    | .error (fault, count) => .error { fault, position, byte, count }
    | .ok (c, count) =>
      (decodeFrom fuel (position + count) ((byte :: rest).drop count)).map (c :: ·)

def decode (bytes : List UInt8) : Except DecodeError Text :=
  decodeFrom bytes.length 0 bytes

/-- The text of bytes, where a replacement character stands for each fault. -/
def decodeLossyFrom : Nat → List UInt8 → Text
  | 0, _ => []
  | _ + 1, [] => []
  | fuel + 1, byte :: rest =>
    match readChar byte rest with
    | .error (_, count) => Char.ofNat 0xFFFD :: decodeLossyFrom fuel ((byte :: rest).drop count)
    | .ok (c, count) => c :: decodeLossyFrom fuel ((byte :: rest).drop count)

/-- The text of bytes, where a replacement character stands for each fault. -/
def decodeLossy (bytes : List UInt8) : Text :=
  decodeLossyFrom bytes.length bytes

def encode (t : Text) : List UInt8 :=
  t.flatMap String.utf8EncodeChar

/-- Read every kind of line end as a line feed. -/
def normalizeLineEnds : Text → Text
  | [] => []
  | '\r' :: '\n' :: rest => '\n' :: normalizeLineEnds rest
  | '\r' :: rest => '\n' :: normalizeLineEnds rest
  | c :: rest => c :: normalizeLineEnds rest

end ValueClass.Utf8
