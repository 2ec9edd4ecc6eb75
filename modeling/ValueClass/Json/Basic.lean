import ValueClass.Number.Binary64

/-! # JSON values

Objects keep the order of their members. Whole numbers and numbers with a
fraction are different values.
-/

namespace ValueClass

inductive Json where
  | null
  | bool (value : Bool)
  /-- A number without fraction and exponent. -/
  | int (value : Int)
  /-- A number with a fraction or an exponent. -/
  | float (value : Binary64)
  | str (value : Text)
  | arr (items : List Json)
  /-- An object; its keys are distinct. -/
  | obj (members : List (Text × Json))
  deriving Repr

/-- Give a key its value: a known key keeps its place, a new one goes last. -/
def setMember {α : Type} (key : Text) (value : α) : List (Text × α) → List (Text × α)
  | [] => [(key, value)]
  | (k, v) :: rest => if k == key then (k, value) :: rest else (k, v) :: setMember key value rest

/-- Give several keys their values, one after the other. -/
def setMembers {α : Type} (entries base : List (Text × α)) : List (Text × α) :=
  entries.foldl (fun members (key, value) => setMember key value members) base

namespace Json

/-- What bounds the documents that can be read. -/
inductive Limit where
  /-- The number of digits of a whole number. -/
  | digits
  /-- What a string can hold: characters, and so no half of a surrogate pair. -/
  | surrogate
  deriving Repr, DecidableEq

namespace Limit

/-- The wording for a document that goes beyond a limit. -/
def wording : Limit → Text
  | .digits => "Number with too many digits"
  | .surrogate => "Half of a surrogate pair"

/-- The digits that a whole number can have. -/
def maxDigits : Nat := 4300

end Limit

/-- Whether a value counts as set: neither null, false, zero nor empty. -/
def isTruthy : Json → Bool
  | .null => false
  | .bool value => value
  | .int value => value != 0
  | .float value => !value.isZero
  | .str value => !value.isEmpty
  | .arr items => !items.isEmpty
  | .obj members => !members.isEmpty

/-- The member of an object, if the value is one and has it. -/
def member? (key : Text) : Json → Option Json
  | .obj members => members.lookup key
  | _ => none

end Json

end ValueClass
