import ValueClass.Json.Basic
import ValueClass.Text.Digit

/-! # Dates in strings

Which strings are read as dates. A string must have four characters and a
digit before it is looked at; then either a given list decides, or it must be
a calendar date, perhaps with a time of day and an offset.
-/

namespace ValueClass

inductive DateTest where
  /-- The strings of a list are dates. -/
  | listed (dates : List Text)
  /-- Dates are written year first, as in `2021-03-04T10:00:00Z`. -/
  | calendar
  deriving Repr, DecidableEq

namespace DateTest

/-- The value of a run of ASCII digits of a fixed length at the front of a
    text, and what follows. -/
def number? (length : Nat) (t : Text) : Option (Nat × Text) :=
  let digits := t.take length
  if digits.length == length && digits.all Char.isDigit then
    some (digits.foldl (fun n c => n * 10 + (c.toNat - '0'.toNat)) 0, t.drop length)
  else none

/-- What follows a character at the front of a text. -/
def after? (c : Char) : Text → Option Text
  | d :: rest => if c == d then some rest else none
  | [] => none

/-- Whether a year has a 29th of February. -/
def isLeap (year : Nat) : Bool :=
  year % 4 == 0 && (year % 100 != 0 || year % 400 == 0)

def daysIn (year month : Nat) : Nat :=
  if month == 2 then (if isLeap year then 29 else 28)
  else if month == 4 || month == 6 || month == 9 || month == 11 then 30
  else 31

/-- What follows a date at the front of a text. -/
def afterDate? (t : Text) : Option Text := do
  let (year, t) ← number? 4 t
  let (month, t) ← number? 2 (← after? '-' t)
  let (day, t) ← number? 2 (← after? '-' t)
  if 1 ≤ year && 1 ≤ month && month ≤ 12 && 1 ≤ day && day ≤ daysIn year month then some t else none

/-- What follows a time of day at the front of a text. -/
def afterTime? (t : Text) : Option Text := do
  let (hour, t) ← number? 2 t
  let (minute, t) ← number? 2 (← after? ':' t)
  let (second, t) ← number? 2 (← after? ':' t)
  if hour < 24 && minute < 60 && second < 60 then some t else none

/-- What follows a fraction of a second, if there is one. -/
def skipFraction (t : Text) : Text :=
  match t with
  | '.' :: d :: rest => if d.isDigit then rest.dropWhile Char.isDigit else t
  | _ => t

/-- Whether a text is an offset from universal time, or nothing. -/
def isOffset (t : Text) : Bool :=
  match t with
  | [] => true
  | ['Z'] => true
  | [sign, a, b, ':', c, d] => (sign == '+' || sign == '-') && [a, b, c, d].all Char.isDigit
  | [sign, a, b, c, d] => (sign == '+' || sign == '-') && [a, b, c, d].all Char.isDigit
  | _ => false

/-- Whether a text is a date, perhaps with a time of day and an offset. -/
def isCalendar (t : Text) : Bool :=
  match afterDate? t with
  | none => false
  | some [] => true
  | some (c :: rest) =>
    (c == 'T' || c == ' ') && ((afterTime? rest).map fun t => isOffset (skipFraction t)).getD false

def accepts (test : DateTest) (t : Text) : Bool :=
  4 ≤ t.length && t.any isDigitChar &&
    match test with
    | .listed dates => dates.contains t
    | .calendar => isCalendar t

/-- Whether a JSON value is read as a date. -/
def acceptsValue (test : DateTest) : Json → Bool
  | .str t => test.accepts t
  | _ => false

end DateTest

end ValueClass
