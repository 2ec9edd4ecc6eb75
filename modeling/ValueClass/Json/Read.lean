import ValueClass.Json.Basic
import ValueClass.Text.Digit

/-! # Reading JSON

A reader that keeps count of its position, so that every fault is reported
with its line and column. Beside the numbers of the standard it accepts `NaN`
and the infinities.
-/

namespace ValueClass

namespace Json

inductive Fault where
  | expectingValue
  /-- A member must start with its name. -/
  | expectingName
  /-- A name must be followed by a colon. -/
  | expectingColon
  /-- Items must be separated by commas. -/
  | expectingComma
  /-- A control character stands raw in a string. -/
  | controlCharacter
  | unterminatedString
  /-- A backslash is followed by a character that it cannot escape. -/
  | badEscape
  /-- A `\u` is not followed by four hexadecimal digits. -/
  | badUnicodeEscape
  /-- Something follows the value. -/
  | extraData
  /-- The text starts with a byte order mark. -/
  | byteOrderMark
  /-- The text goes beyond a limit of the reader. -/
  | beyond (limit : Limit)
  deriving Repr, DecidableEq

def Fault.wording : Fault → Text
  | .expectingValue => "Expecting value"
  | .expectingName => "Expecting property name enclosed in double quotes"
  | .expectingColon => "Expecting ':' delimiter"
  | .expectingComma => "Expecting ',' delimiter"
  | .controlCharacter => "Invalid control character at"
  | .unterminatedString => "Unterminated string starting at"
  | .badEscape => "Invalid \\escape"
  | .badUnicodeEscape => "Invalid \\uXXXX escape"
  | .extraData => "Extra data"
  | .byteOrderMark => "Unexpected UTF-8 BOM (decode using utf-8-sig)"
  | .beyond limit => limit.wording

/-- A fault and the number of characters before it. -/
structure ReadError where
  fault : Fault
  /-- Where, counted from zero. -/
  position : Nat
  deriving Repr, DecidableEq

/-- The message for a fault in a document. -/
def ReadError.message (document : Text) (e : ReadError) : Text :=
  let before := document.take e.position
  let line := before.count '\n' + 1
  let column := (before.reverse.takeWhile (· != '\n')).length + 1
  e.fault.wording ++ ": line " ++ Text.ofNat line ++ " column " ++ Text.ofNat column ++
    " (char " ++ Text.ofNat e.position ++ ")"

/-- A place in the document: what is still to be read, and what number of
    characters was. -/
structure Cursor where
  rest : Text
  /-- The number of characters read. -/
  position : Nat := 0

namespace Cursor

def advance (cur : Cursor) (count : Nat) : Cursor :=
  ⟨cur.rest.drop count, cur.position + count⟩

/-- Whether a character may stand between the tokens of JSON. -/
def isSpace (c : Char) : Bool :=
  c == ' ' || c == '\t' || c == '\n' || c == '\r'

def skipSpace (cur : Cursor) : Cursor :=
  cur.advance (cur.rest.takeWhile isSpace).length

/-- Move past a word, if it stands here. -/
def word? (cur : Cursor) (word : Text) : Option Cursor :=
  if word.isPrefixOf cur.rest then some (cur.advance word.length) else none

def fail {α : Type} (cur : Cursor) (fault : Fault) : Except ReadError α :=
  .error ⟨fault, cur.position⟩

end Cursor

/-- The value of four hexadecimal digits. -/
def hex4? : Text → Option Nat
  | [a, b, c, d] => do
    let a ← Text.hexDigit? a
    let b ← Text.hexDigit? b
    let c ← Text.hexDigit? c
    let d ← Text.hexDigit? d
    return ((a * 16 + b) * 16 + c) * 16 + d
  | _ => none

/-- Whether a code unit opens a surrogate pair. -/
def isHighSurrogate (n : Nat) : Bool :=
  0xD800 ≤ n && n ≤ 0xDBFF

/-- Whether a code unit closes a surrogate pair. -/
def isLowSurrogate (n : Nat) : Bool :=
  0xDC00 ≤ n && n ≤ 0xDFFF

/-- The character of a code unit that stands alone, if it has one. -/
def unitChar? (n : Nat) : Option Char :=
  if isHighSurrogate n || isLowSurrogate n then none else some (Char.ofNat n)

/-- The character that a one-letter escape stands for. -/
def simpleEscape? : Char → Option Char
  | '"' => some '"'
  | '\\' => some '\\'
  | '/' => some '/'
  | 'b' => some (Char.ofNat 8)
  | 'f' => some (Char.ofNat 12)
  | 'n' => some '\n'
  | 'r' => some '\r'
  | 't' => some '\t'
  | _ => none

/-- Read four hexadecimal digits that must not end the document. The cursor
    stands behind the `u`; `mark` is where a fault is reported. -/
def readUnit (cur : Cursor) (mark : Nat) : Except ReadError (Nat × Cursor) :=
  match hex4? (cur.rest.take 4), cur.rest.drop 4 with
  | some n, _ :: _ => .ok (n, cur.advance 4)
  | _, _ => .error ⟨.badUnicodeEscape, mark⟩

/-- Read a `\u` escape; the cursor stands behind the `u`. A high surrogate
    takes the low one that follows it along; any other surrogate stands for
    nothing that a string can hold. -/
def readUnicode (cur : Cursor) : Except ReadError (Char × Cursor) := do
  let mark := cur.position - 1
  let (high, next) ← readUnit cur mark
  let alone : Except ReadError (Char × Cursor) :=
    match unitChar? high with
    | some c => .ok (c, next)
    | none => .error ⟨.beyond .surrogate, mark⟩
  match next.rest with
  | '\\' :: 'u' :: digits =>
    if isHighSurrogate high && 4 < digits.length then
      let (low, after) ← readUnit (next.advance 2) (next.position + 1)
      if isLowSurrogate low then
        return (Char.ofNat (0x10000 + (high - 0xD800) * 0x400 + (low - 0xDC00)), after)
      else alone
    else alone
  | _ => alone

/-- Read the characters of a string up to its closing quote. `opened` is the
    position of the opening quote. -/
def readString (opened : Nat) : Nat → Cursor → Except ReadError (Text × Cursor)
  | 0, _ => .error ⟨.unterminatedString, opened⟩
  | fuel + 1, cur =>
    match cur.rest with
    | [] => .error ⟨.unterminatedString, opened⟩
    | '"' :: _ => .ok ([], cur.advance 1)
    | '\\' :: [] => .error ⟨.unterminatedString, opened⟩
    | '\\' :: 'u' :: _ => do
      let (c, next) ← readUnicode (cur.advance 2)
      let (text, after) ← readString opened fuel next
      return (c :: text, after)
    | '\\' :: e :: _ =>
      match simpleEscape? e with
      | none => cur.fail .badEscape
      | some c => do
        let (text, after) ← readString opened fuel (cur.advance 2)
        return (c :: text, after)
    | c :: _ =>
      if c.toNat ≤ 0x1F then cur.fail .controlCharacter
      else do
        let (text, after) ← readString opened fuel (cur.advance 1)
        return (c :: text, after)

/-- The digits of the fraction at the front of a text, if one stands there. -/
def fractionDigits (t : Text) : Text :=
  match t with
  | '.' :: rest => rest.takeWhile Char.isDigit
  | _ => []

/-- The exponent at the front of a text with the number of its characters. -/
def exponentPart (t : Text) : Option (Int × Nat) :=
  match t with
  | e :: rest =>
    if e == 'e' || e == 'E' then
      let (sign, signed, digits) : Int × Nat × Text :=
        match rest with
        | '-' :: tail => (-1, 1, tail.takeWhile Char.isDigit)
        | '+' :: tail => (1, 1, tail.takeWhile Char.isDigit)
        | tail => (1, 0, tail.takeWhile Char.isDigit)
      if digits.isEmpty then none
      else some (sign * Text.digitsValue digits, 1 + signed + digits.length)
    else none
  | [] => none

def signed (negative : Bool) (n : Nat) : Int :=
  if negative then -n else n

/-- Read a number. A leading zero stands alone. -/
def readNumber (cur : Cursor) : Except ReadError (Json × Cursor) :=
  let negative := cur.rest.head? == some '-'
  let unsigned := if negative then cur.rest.drop 1 else cur.rest
  let digits :=
    match unsigned with
    | '0' :: _ => ['0']
    | _ => unsigned.takeWhile Char.isDigit
  if digits.isEmpty then cur.fail .expectingValue
  else
    let tail := unsigned.drop digits.length
    let fraction := fractionDigits tail
    let fractionLength := if fraction.isEmpty then 0 else fraction.length + 1
    let signLength := if negative then 1 else 0
    let wholeLength := signLength + digits.length + fractionLength
    let scaled := Text.digitsValue (digits ++ fraction)
    match exponentPart (tail.drop fractionLength), fraction with
    | some (power, length), _ =>
      .ok (.float (.ofDecimal negative scaled (power - fraction.length)),
        cur.advance (wholeLength + length))
    | none, _ :: _ =>
      .ok (.float (.ofDecimal negative scaled (-fraction.length)), cur.advance wholeLength)
    | none, [] =>
      if Limit.maxDigits < digits.length then cur.fail (.beyond .digits)
      else .ok (.int (signed negative scaled), cur.advance wholeLength)

/-- The words that are values of their own. -/
def wordValues : List (Text × Json) :=
  [("null", .null), ("true", .bool true), ("false", .bool false), ("NaN", .float .nan),
   ("Infinity", .float (.infinite false)), ("-Infinity", .float (.infinite true))]

/-- Read a value that is a word or a number. -/
def readScalar (cur : Cursor) : Except ReadError (Json × Cursor) :=
  match wordValues.findSome? fun (word, value) => (cur.word? word).map fun next =>
    (value, next) with
  | some result => .ok result
  | none => readNumber cur

mutual

def readValue : Nat → Cursor → Except ReadError (Json × Cursor)
  | 0, cur => cur.fail .expectingValue
  | fuel + 1, cur =>
    match cur.rest with
    | '"' :: _ => do
      let (text, next) ← readString cur.position cur.rest.length (cur.advance 1)
      return (.str text, next)
    | '\x7b' :: _ => do
      let next := (cur.advance 1).skipSpace
      match next.rest with
      | '\x7d' :: _ => return (.obj [], next.advance 1)
      | _ =>
        let (members, after) ← readMembers fuel next
        return (.obj (setMembers members []), after)
    | '[' :: _ => do
      let next := (cur.advance 1).skipSpace
      match next.rest with
      | ']' :: _ => return (.arr [], next.advance 1)
      | _ =>
        let (items, after) ← readItems fuel next
        return (.arr items, after)
    | _ => readScalar cur

/-- Read the items of an array up to its closing bracket. -/
def readItems : Nat → Cursor → Except ReadError (List Json × Cursor)
  | 0, cur => cur.fail .expectingValue
  | fuel + 1, cur => do
    let (item, next) ← readValue fuel cur
    let next := next.skipSpace
    match next.rest with
    | ']' :: _ => return ([item], next.advance 1)
    | ',' :: _ =>
      let (items, after) ← readItems fuel (next.advance 1).skipSpace
      return (item :: items, after)
    | _ => next.fail .expectingComma

/-- Read the members of an object up to its closing brace. -/
def readMembers : Nat → Cursor → Except ReadError (List (Text × Json) × Cursor)
  | 0, cur => cur.fail .expectingName
  | fuel + 1, cur => do
    match cur.rest with
    | '"' :: _ =>
      let (name, next) ← readString cur.position cur.rest.length (cur.advance 1)
      let next := next.skipSpace
      match next.rest with
      | ':' :: _ =>
        let (value, after) ← readValue fuel (next.advance 1).skipSpace
        let after := after.skipSpace
        match after.rest with
        | '\x7d' :: _ => return ([(name, value)], after.advance 1)
        | ',' :: _ =>
          let (members, last) ← readMembers fuel (after.advance 1).skipSpace
          return ((name, value) :: members, last)
        | _ => after.fail .expectingComma
      | _ => next.fail .expectingColon
    | _ => cur.fail .expectingName

end

/-- Read a document. Each nested reader passes at least one character, so
    twice the length of the text bounds the number of steps. -/
def read (document : Text) : Except ReadError Json := do
  match document with
  | c :: _ => if c.toNat == 0xFEFF then throw ⟨.byteOrderMark, 0⟩
  | [] => pure ()
  let start : Cursor := { rest := document }
  let (value, next) ← readValue (2 * document.length + 2) start.skipSpace
  let last := next.skipSpace
  if last.rest.isEmpty then return value else last.fail .extraData

end Json

end ValueClass
