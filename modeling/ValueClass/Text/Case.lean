import ValueClass.Text.CaseTable

/-! # Upper and lower case

Full case mapping: a capital form may have several characters (`ß` has `SS`),
and a capital sigma that ends a word becomes the final sigma.
-/

namespace ValueClass

/-- The shift of a character in a table of runs, if a run holds it. -/
def caseShift? (runs : List (Nat × Nat × Nat × Int)) (n : Nat) : Option Int :=
  (runs.find? fun (first, last, step, _) => first ≤ n && n ≤ last && (n - first) % step == 0).map
    fun (_, _, _, shift) => shift

/-- Move a character by the shift that a table of runs has for it. -/
def shiftCase (runs : List (Nat × Nat × Nat × Int)) (c : Char) : Char :=
  match caseShift? runs c.toNat with
  | some shift => Char.ofNat ((c.toNat : Int) + shift).toNat
  | none => c

def upperChar (c : Char) : Text :=
  if c.toNat < 0x80 then [c.toUpper]
  else
    match upperExpansions.find? fun (n, _) => n == c.toNat with
    | some (_, form) => form.map Char.ofNat
    | none => [shiftCase upperRuns c]

/-- The small form of a character that stands alone. Only the capital I with
    a dot above has two characters. -/
def lowerChar (c : Char) : Text :=
  if c.toNat < 0x80 then [c.toLower]
  else if c.toNat == 0x130 then ['i', Char.ofNat 0x307]
  else [shiftCase lowerRuns c]

/-- Whether a character is a letter with case. -/
def isCased (c : Char) : Bool :=
  if c.toNat < 0x80 then c.isAlpha else inRanges casedRanges c

/-- Whether case rules look through a character. -/
def isTransparent (c : Char) : Bool :=
  if c.toNat < 0x80 then ['\'', '.', ':', '^', Char.ofNat 0x60].contains c
  else inRanges transparentRanges c

namespace Text

/-- Whether the nearest character that case rules do not look through is a
    letter with case. -/
def meetsCased (t : Text) : Bool :=
  match t.dropWhile isTransparent with
  | [] => false
  | c :: _ => isCased c

/-- Lower case, given the characters before in reverse order. -/
def lowerAfter : Text → Text → Text
  | _, [] => []
  | before, c :: rest =>
    let small :=
      if c.toNat == 0x3A3 then
        if meetsCased before && !meetsCased rest then [Char.ofNat 0x3C2] else [Char.ofNat 0x3C3]
      else lowerChar c
    small ++ lowerAfter (c :: before) rest

def lower (t : Text) : Text :=
  lowerAfter [] t

end Text

end ValueClass
