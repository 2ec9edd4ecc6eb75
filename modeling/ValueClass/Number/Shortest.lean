import ValueClass.Number.Binary64

/-! # Shortest decimals

A floating-point number is written with the fewest digits that read back as
the same number; of two such decimals the nearer one is taken. Plain notation
is used from `0.0001` up to sixteen digits before the point.
-/

namespace ValueClass.Binary64

/-- The number of decimal digits before the point of a positive fraction:
    `10 ^ (k - 1) ≤ num / den < 10 ^ k`, sought upward from `k`. -/
def decimalPlaces (num den : Nat) : Nat → Int → Int
  | 0, k => k
  | fuel + 1, k =>
    let isBelow := if 0 ≤ k then num < den * pow10 k.toNat else num * pow10 (-k).toNat < den
    if isBelow then k else decimalPlaces num den fuel (k + 1)

/-- The fraction `num / den` in units of `10 ^ power`, as numerator and
    denominator. -/
def inUnits (num den : Nat) (power : Int) : Nat × Nat :=
  if 0 ≤ power then (num, den * pow10 power.toNat) else (num * pow10 (-power).toNat, den)

/-- The decimal with `count` digits that reads back as the positive number,
    if there is one. -/
def digitsWith? (mantissa : Nat) (exponent : Int) (num den : Nat) (places : Int) (count : Nat) :
    Option (Nat × Int) :=
  let power := places - count
  let (n, d) := inUnits num den power
  let below := n / d
  let readsBack := fun digits => ofDecimal false digits power == .finite false mantissa exponent
  let twice := 2 * (n % d)
  let nearerFirst :=
    if twice < d || (twice == d && below % 2 == 0) then [below, below + 1] else [below + 1, below]
  (nearerFirst.find? readsBack).map fun digits => (digits, power)

/-- Digits and power of ten of the shortest decimal of a positive number.
    Seventeen digits always read back. -/
def shortest (mantissa : Nat) (exponent : Int) : Nat × Int :=
  let (num, den) := scale mantissa 1 exponent
  let places := decimalPlaces num den 640 (-330)
  let counts := (List.range 17).map (· + 1)
  (counts.findSome? (digitsWith? mantissa exponent num den places)).getD (0, 0)

/-- Drop zeros at the end of the digits, moving them into the power. -/
def dropZeros : Nat → Nat → Int → Nat × Int
  | 0, digits, power => (digits, power)
  | fuel + 1, digits, power =>
    if digits != 0 && digits % 10 == 0 then dropZeros fuel (digits / 10) (power + 1)
    else (digits, power)

/-- The exponent with its sign and at least two digits. -/
def exponentText (e : Int) : Text :=
  let digits := Text.ofNat e.natAbs
  (if e < 0 then "-" else "+" : Text) ++ (if digits.length < 2 then '0' :: digits else digits)

/-- A positive decimal in the chosen notation. -/
def decimalText (digits : Nat) (power : Int) : Text :=
  let (digits, power) := dropZeros 20 digits power
  let ds := Text.ofNat digits
  let point : Int := ds.length + power
  if point ≤ -4 || 16 < point then
    let fraction := ds.drop 1
    ds.take 1 ++ (if fraction.isEmpty then [] else '.' :: fraction) ++ "e" ++
      exponentText (point - 1)
  else if point ≤ 0 then "0." ++ List.replicate (-point).toNat '0' ++ ds
  else if ds.length ≤ point.toNat then ds ++ List.replicate (point.toNat - ds.length) '0' ++ ".0"
  else ds.take point.toNat ++ "." ++ ds.drop point.toNat

/-- The magnitude of a finite number as text. -/
def magnitudeText (mantissa : Nat) (exponent : Int) : Text :=
  if mantissa == 0 then "0.0"
  else
    let (digits, power) := shortest mantissa exponent
    decimalText digits power

/-- How numbers beyond the finite ones are spelled. -/
structure Spelling where
  nan : Text
  /-- Infinity without its sign. -/
  infinity : Text

def text (spelling : Spelling) : Binary64 → Text
  | .nan => spelling.nan
  | .infinite negative => (if negative then "-" else [] : Text) ++ spelling.infinity
  | .finite negative mantissa exponent =>
    (if negative then "-" else [] : Text) ++ magnitudeText mantissa exponent

end ValueClass.Binary64
