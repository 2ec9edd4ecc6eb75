import ValueClass.Text.Basic

/-! # Binary floating point of 64 bits

Numbers with a fraction are held exactly, as a mantissa and a power of two.
Reading a decimal rounds to the nearest such number, a tie to the even
mantissa. Everything is arithmetic on natural numbers.
-/

namespace ValueClass

/-- A binary floating-point number with 53 bits of precision. -/
inductive Binary64 where
  | nan
  /-- An infinity with its sign. -/
  | infinite (negative : Bool)
  /-- `± mantissa · 2 ^ exponent`, with `mantissa < 2 ^ 53` and
      `-1074 ≤ exponent`. Only the least exponent goes with a mantissa below
      `2 ^ 52`. -/
  | finite (negative : Bool) (mantissa : Nat) (exponent : Int)
  deriving Repr, DecidableEq

namespace Binary64

/-- `num / den` to the nearest whole number, a tie to the even one. -/
def roundDiv (num den : Nat) : Nat :=
  let q := num / den
  let twice := 2 * (num % den)
  if twice < den then q
  else if den < twice then q + 1
  else if q % 2 == 0 then q
  else q + 1

def pow2 (n : Nat) : Nat :=
  Nat.pow 2 n

def pow10 (n : Nat) : Nat :=
  Nat.pow 10 n

/-- The fraction `num / den · 2 ^ shift` as numerator and denominator. -/
def scale (num den : Nat) (shift : Int) : Nat × Nat :=
  if 0 ≤ shift then (num * pow2 shift.toNat, den) else (num, den * pow2 (-shift).toNat)

/-- The power of two at or below a positive fraction. -/
def floorLog2 (num den : Nat) : Int :=
  let guess : Int := (num.log2 : Int) - den.log2
  let (n, d) := scale num den (-guess)
  if d ≤ n then guess else guess - 1

/-- The number nearest to a fraction with a sign. -/
def ofFraction (negative : Bool) (num den : Nat) : Binary64 :=
  if num == 0 then .finite negative 0 (-1074)
  else
    let exponent := max (floorLog2 num den - 52) (-1074)
    let (n, d) := scale num den (-exponent)
    let mantissa := roundDiv n d
    let (mantissa, exponent) :=
      if mantissa == pow2 53 then (pow2 52, exponent + 1) else (mantissa, exponent)
    if 971 < exponent then .infinite negative else .finite negative mantissa exponent

/-- The number nearest to `digits · 10 ^ power`. Powers far outside the range
    of the format are answered without computing them. -/
def ofDecimal (negative : Bool) (digits : Nat) (power : Int) : Binary64 :=
  let size := (digits.log2 : Int) / 4 + power
  if digits == 0 then .finite negative 0 (-1074)
  else if 400 < size then .infinite negative
  else if (digits.log2 : Int) + power < -800 then .finite negative 0 (-1074)
  else if 0 ≤ power then ofFraction negative (digits * pow10 power.toNat) 1
  else ofFraction negative digits (pow10 (-power).toNat)

/-- Whether the number is zero of either sign. -/
def isZero : Binary64 → Bool
  | .finite _ mantissa _ => mantissa == 0
  | _ => false

def isNegative : Binary64 → Bool
  | .nan => false
  | .infinite negative => negative
  | .finite negative mantissa _ => negative && mantissa != 0

def isPositive : Binary64 → Bool
  | .nan => false
  | .infinite negative => !negative
  | .finite negative mantissa _ => !negative && mantissa != 0

def isBelowOne : Binary64 → Bool
  | .nan => false
  | .infinite negative => negative
  | .finite negative mantissa exponent =>
    let (n, d) := scale mantissa 1 exponent
    negative || n < d

end Binary64

end ValueClass
