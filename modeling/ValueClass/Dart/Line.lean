import ValueClass.Text.Nesting
import ValueClass.Text.Word
import ValueClass.Dart.Field

/-! # Lines of a class body

What a single line shows: its code without string literals and comments, and
whether it declares a field.
-/

namespace ValueClass.Dart.Line

/-- What follows a string literal whose opening quote was just passed. A
    backslash takes the next character along, which must not be a line feed. -/
def afterLiteral? (quote : Char) : Text → Option Text
  | [] => none
  | ['\\'] => none
  | '\\' :: c :: rest => if c == '\n' then none else afterLiteral? quote rest
  | c :: rest => if c == quote then some rest else afterLiteral? quote rest

theorem length_afterLiteral?_lt {quote : Char} {t rest : Text}
    (h : afterLiteral? quote t = some rest) : rest.length < t.length := by
  fun_induction afterLiteral? quote t with
  | case1 => simp at h
  | case2 => simp at h
  | case3 => simp at h
  | case4 c tail hc ih => have := ih h; simp; omega
  | case5 c tail h1 h2 hq => cases h; simp
  | case6 c tail h1 h2 hq ih => have := ih h; simp; omega

/-- Empty every string literal, so that what it holds is not taken for code.
    A quote that opens no literal stays. -/
def blankStrings (t : Text) : Text :=
  match t with
  | [] => []
  | c :: rest =>
    if c == '\'' || c == '"' then
      match _h : afterLiteral? c rest with
      | some after => '\'' :: '\'' :: blankStrings after
      | none => c :: blankStrings rest
    else c :: blankStrings rest
termination_by t.length
decreasing_by
  all_goals
    first
      | have := length_afterLiteral?_lt _h; simp; omega
      | simp

/-- What remains when a comment starts here, perhaps behind blanks, and runs
    to the end of the text. -/
def commentRemainder? (t : Text) : Option Text :=
  match t.trimStart with
  | '/' :: '/' :: rest =>
    let tail := rest.dropWhile (· != '\n')
    if tail.isEmpty || tail == ['\n'] then some tail else none
  | _ => none

/-- Drop a line comment and the blanks before it. -/
def dropComment : Text → Text
  | [] => []
  | c :: rest =>
    match commentRemainder? (c :: rest) with
    | some remainder => remainder
    | none => c :: dropComment rest

/-- The code of a line: string literals are emptied, the comment and the
    blanks at both ends are gone. -/
def code (line : Text) : Text :=
  (dropComment (blankStrings line)).trim

/-- Whether a trimmed line is a comment or lies inside one. -/
def isComment (trimmed : Text) : Bool :=
  trimmed.startsWith "//" || trimmed.startsWith "/*" || trimmed.startsWith "*"

/-- Words that no field declaration holds. -/
def excludedWords : List Text :=
  ["static", "get", "set", "return", "factory"]

/-- Marks that no field declaration holds. -/
def excludedMarks : List Text :=
  ["\x7b", "\x7d", "=>", "@"]

/-- Whether a line at the top of a class body declares a stored field. A
    `final` with a value is computed and not stored, and a line that ends in
    `);` declares a method. -/
def isField (line className : Text) : Bool :=
  let code := code line
  let words := code.words
  !code.isEmpty && !code.startsWith className && !isComment code &&
    !(excludedMarks.any fun mark => code.has mark) &&
    !(words.any fun word => excludedWords.contains word) &&
    !(words.contains "final" && code.contains '=') &&
    !code.endsWith ");"

/-- Whether a line announces that the next field is an enumeration. -/
def announcesEnum (line : Text) : Bool :=
  match line.trim with
  | '/' :: '/' :: rest => (Text.trimStart rest).map Char.toLower == "enum"
  | _ => false

/-- Words that mark a field and do not belong to its type. -/
def fieldMarkers : List Text :=
  ["final", "const", "late"]

/-- The name in the first tokens that end a declaration, and the tokens of the
    type before it. A name is followed by `=` or `;`, with or without a blank
    between. -/
def splitDeclaration : List Text → Option (List Text × Text)
  | [] => none
  | token :: rest =>
    match Text.cut? "=" token with
    | some (c :: name, _) => some ([], c :: name)
    | _ =>
      if token.endsWith ";" then some ([], token.dropLast)
      else if (rest.head?.getD []).startsWith "=" then some ([], token)
      else (splitDeclaration rest).map fun (types, name) => (token :: types, name)

/-- The line without its comment; a line with quotes is left alone, since the
    slashes may belong to a string. -/
def withoutComment (line : Text) : Text :=
  if line.contains '\'' || line.contains '"' then line else dropComment line

/-- Read the field that a line declares. -/
def field? (line : Text) (lineNo : Nat) (previous : Text) : Option Field :=
  let tokens := Text.tokens (withoutComment line).trim
  match splitDeclaration (tokens.filter fun token => !fieldMarkers.contains token) with
  | some (type :: types, c :: name) =>
    some
      { rawType := Text.join " " (type :: types)
        key := c :: name
        name := c :: name
        line := lineNo
        isFinal := tokens.contains "final"
        isConst := tokens.contains "const"
        isEnum := announcesEnum previous }
  | _ => none

/-- Whether a line opens the unnamed constructor of a class. -/
def opensConstructor (line className : Text) : Bool :=
  let trimmed := line.trim
  let named := ((Text.dropStart? "const " trimmed).map Text.trimStart).getD trimmed
  named.startsWith (className ++ "(")

def braces (t : Text) : Int :=
  (t.count '\x7b' : Int) - t.count '\x7d'

/-- Opening parentheses less closing ones. -/
def parens (t : Text) : Int :=
  (t.count '(' : Int) - t.count ')'

end ValueClass.Dart.Line
