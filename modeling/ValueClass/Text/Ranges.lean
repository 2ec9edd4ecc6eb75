import ValueClass.Text.Basic

/-! # Ranges of code points

A character class of a standard is given by its ranges outside ASCII; each
range holds both of its ends.
-/

namespace ValueClass

/-- Whether a character lies in one of the ranges. -/
def inRanges (ranges : List (Nat × Nat)) (c : Char) : Bool :=
  ranges.any fun (first, last) => first ≤ c.toNat && c.toNat ≤ last

end ValueClass
