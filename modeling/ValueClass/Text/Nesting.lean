import ValueClass.Text.Blank

/-! # Splitting outside brackets

A comma or a blank separates only where no bracket is open. The depth is a
plain count: brackets are not matched with each other, and a stray closing
bracket takes the count below zero, where nothing separates any more.
-/

namespace ValueClass

/-- How a character changes the depth of brackets of all kinds. -/
def bracketStep (c : Char) : Int :=
  if c == '<' || c == '(' || c == '[' || c == '\x7b' then 1
  else if c == '>' || c == ')' || c == ']' || c == '\x7d' then -1
  else 0

/-- How a character changes the depth of angle brackets. -/
def angleStep (c : Char) : Int :=
  if c == '<' then 1 else if c == '>' then -1 else 0

namespace Text

/-- Cut at the characters that satisfy `cuts` while the depth, counted by
    `step` from `depth` on, is zero. A character's own step counts before the
    decision. -/
def splitAtDepth (step : Char → Int) (cuts : Char → Bool) : Int → Text → List Text
  | _, [] => [[]]
  | depth, c :: rest =>
    let inner := depth + step c
    if cuts c && inner == 0 then [] :: splitAtDepth step cuts inner rest
    else consFirst c (splitAtDepth step cuts inner rest)

/-- The trimmed parts of a list whose separator counts only outside brackets
    of every kind. Blank parts are left out. -/
def splitTopLevel (sep : Char) (t : Text) : List Text :=
  ((splitAtDepth bracketStep (· == sep) 0 t).map trim).filter fun part => !part.isEmpty

/-- The tokens of a line: blanks separate unless they stand inside angle
    brackets, so that a generic type is one token. -/
def tokens (t : Text) : List Text :=
  (splitAtDepth angleStep isBlank 0 t).filter fun token => !token.isEmpty

/-- Spelling of a signature that does not depend on its layout. Blanks are
    dropped and one space follows each comma inside angle brackets. `depth`
    counts open angle brackets and never falls below zero. -/
def signatureFrom : Nat → Text → Text
  | _, [] => []
  | depth, c :: rest =>
    let inner := if c == '<' then depth + 1 else if c == '>' then depth - 1 else depth
    if isBlank c then signatureFrom inner rest
    else if c == ',' && inner != 0 then ',' :: ' ' :: signatureFrom inner rest
    else c :: signatureFrom inner rest

/-- Spelling of a signature that does not depend on its layout. -/
def signature (t : Text) : Text :=
  signatureFrom 0 t.trim

end Text

end ValueClass
