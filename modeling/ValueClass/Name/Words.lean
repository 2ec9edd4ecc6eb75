import ValueClass.Text.Blank
import ValueClass.Text.Case

/-! # Words in names

The spellings that a name can take: capitalised, `snake_case`, `PascalCase`
and the naive singular that names the elements of a list.
-/

namespace ValueClass.Name

/-- Raise the first character only and leave the rest untouched. -/
def capitalize : Text → Text
  | [] => []
  | c :: rest => upperChar c ++ rest

/-- Whether a word boundary of camel case lies between two characters. -/
def isHump (a b : Char) : Bool :=
  (a.isLower || a.isDigit) && b.isUpper

/-- Put an underscore at every boundary of camel case. -/
def breakHumps : Text → Text
  | [] => []
  | [c] => [c]
  | a :: b :: rest =>
    if isHump a b then a :: '_' :: breakHumps (b :: rest) else a :: breakHumps (b :: rest)

/-- The name in snake case, with single underscores between its words. -/
def snake (name : Text) : Text :=
  let words := (breakHumps (name.map fun c => if c == '-' then '_' else c)).lower
  Text.join ['_'] (words.runs (· != '_'))

/-- The name in Pascal case. Capitals inside a word are kept. -/
def pascal (name : Text) : Text :=
  (name.runs fun c => !(c == '_' || c == '-' || isBlank c)).flatMap capitalize

def dropPlural (word : Text) : Text :=
  if word.endsWith "s" then word.dropLast else word

/-- The naive singular: `categories` is read as `category`, and one trailing
    `s` is dropped. -/
def singular (word : Text) : Text :=
  dropPlural (if word.endsWith "ies" then word.take (word.length - 3) ++ "y" else word)

end ValueClass.Name
