import ValueClass.Text.Basic

/-! # Blank characters

The white space of Unicode: the characters of bidirectional class B, S or WS
and the space separators. A zero-width space and a byte order mark are not
blank.
-/

namespace ValueClass

/-- Whether a character is white space. -/
def isBlank (c : Char) : Bool :=
  let n := c.toNat
  (0x09 ≤ n && n ≤ 0x0D) || (0x1C ≤ n && n ≤ 0x20) || n == 0x85 || n == 0xA0 || n == 0x1680 ||
    (0x2000 ≤ n && n ≤ 0x200A) || n == 0x2028 || n == 0x2029 || n == 0x202F || n == 0x205F ||
    n == 0x3000

namespace Text

/-- The text without its leading blanks. -/
def trimStart (t : Text) : Text :=
  t.dropWhile isBlank

/-- The text without its trailing blanks. -/
def trimEnd (t : Text) : Text :=
  (t.reverse.dropWhile isBlank).reverse

/-- The text without blanks at either end. -/
def trim (t : Text) : Text :=
  t.trimStart.trimEnd

/-- Whether nothing but blanks stands in the text. -/
def isBlankText (t : Text) : Bool :=
  t.all isBlank

/-- The characters that are not blank. Two texts with the same ink differ
    only in their layout. -/
def ink (t : Text) : Text :=
  t.filter fun c => !isBlank c

/-- Whether two texts differ only in their layout. -/
def sameInk (a b : Text) : Bool :=
  a.ink == b.ink

end Text

end ValueClass
