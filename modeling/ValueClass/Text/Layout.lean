import ValueClass.Text.Blank

/-! # Layout

Indentation of blocks and the tidy form of a file: no trailing blanks, at most
one blank line in a row, and exactly one line feed at the end.
-/

namespace ValueClass.Text

/-- Put `indent` before every line that is not blank. -/
def indentBlock (indent t : Text) : Text :=
  unlines (t.lines.map fun line => if line.isBlankText then line else indent ++ line)

/-- Drop every empty line that follows an empty line. -/
def squeezeBlankLines : Bool → List Text → List Text
  | _, [] => []
  | afterBlank, line :: rest =>
    if line.isEmpty then
      if afterBlank then squeezeBlankLines true rest else [] :: squeezeBlankLines true rest
    else line :: squeezeBlankLines false rest

/-- The text without line feeds at either end. -/
def trimLineFeeds (t : Text) : Text :=
  ((t.dropWhile (· == '\n')).reverse.dropWhile (· == '\n')).reverse

def tidy (t : Text) : Text :=
  trimLineFeeds (unlines (squeezeBlankLines false (t.lines.map trimEnd))) ++ ['\n']

end ValueClass.Text
