import ValueClass.Text.Nesting
import ValueClass.Text.Word

/-! # Class headers

The line that opens a class: annotations and modifiers, the name with its type
parameters, and the `extends`, `with` and `implements` clauses. A header that
changes is written anew from its parts.
-/

namespace ValueClass.Dart

structure Header where
  /-- What stands before the keyword `class`. -/
  modifiers : Text := []
  /-- Whether a modifier rules out instances. -/
  isAbstract : Bool := false
  /-- The name, if the line has one. -/
  name : Option Text := none
  /-- The type parameters with their brackets and bounds. -/
  generics : Text := []
  superclass : Option Text := none
  mixins : List Text := []
  /-- The interfaces, in order. -/
  interfaces : List Text := []
  /-- Whether the line ends in the opening brace of the body. -/
  opensBody : Bool := true
  deriving Repr, DecidableEq

namespace Header

/-- The text behind the blanks at the front, where there is at least one. -/
def afterBlanks? (t : Text) : Option Text :=
  match t with
  | c :: rest => if isBlank c then some (Text.trimStart rest) else none
  | [] => none

/-- The text behind the argument list at the front of a text, or the text
    itself when there is none. -/
def afterArguments? (t : Text) : Option Text :=
  match t with
  | '(' :: rest =>
    match rest.dropWhile (· != ')') with
    | _ :: after => some after
    | [] => none
  | _ => some t

/-- The text behind an annotation and the blanks that follow it. -/
def afterAnnotation? (t : Text) : Option Text :=
  match t with
  | '@' :: rest =>
    let named := rest.dropWhile fun c => isWordChar c || c == '.'
    if named.length < rest.length then (afterArguments? named).bind afterBlanks? else none
  | _ => none

/-- The modifiers that may stand before `class`. -/
def modifierWords : List Text :=
  ["abstract", "base", "final", "interface", "sealed", "mixin"]

/-- The text behind a modifier and the blanks that follow it. -/
def afterModifier? (t : Text) : Option Text :=
  modifierWords.findSome? fun word => (Text.dropStart? word t).bind afterBlanks?

/-- Take a step as often as it succeeds, at most `fuel` times. -/
def skipAll (step : Text → Option Text) : Nat → Text → Text
  | 0, t => t
  | fuel + 1, t =>
    match step t with
    | some rest => skipAll step fuel rest
    | none => t

def isHeader (line : Text) : Bool :=
  let annotated := skipAll afterAnnotation? line.length line.trimStart
  let declared := skipAll afterModifier? line.length annotated
  match (Text.dropStart? "class" declared).bind afterBlanks? with
  | some (c :: _) => c.isAlpha || c == '_' || c == '$'
  | _ => false

/-- The clauses that can follow a class name. -/
inductive Clause where
  | extends
  | mixes
  | implements
  deriving Repr, DecidableEq

def Clause.ofToken? (token : Text) : Option Clause :=
  if token = "extends" then some .extends
  else if token = "with" then some .mixes
  else if token = "implements" then some .implements
  else none

/-- The tokens under each occurrence of a clause, given the clause that is
    open. Tokens before the first clause belong to none. -/
def clauseTokens (wanted : Clause) : Option Clause → List Text → List Text
  | _, [] => []
  | open?, token :: rest =>
    match Clause.ofToken? token with
    | some clause => clauseTokens wanted (some clause) rest
    | none =>
      if open? = some wanted then token :: clauseTokens wanted open? rest
      else clauseTokens wanted open? rest

/-- The name, the type parameters and the tokens behind them. -/
def splitName : List Text → Option (Text × Text × List Text)
  | [] => none
  | token :: rest =>
    match Text.cut? "<" token with
    | some (name, parameters) => some (name, '<' :: parameters, rest)
    | none =>
      match rest with
      | next :: after =>
        if next.startsWith "<" then some (token, next, after) else some (token, [], rest)
      | [] => some (token, [], [])

/-- The tokens before the keyword `class` and those behind it; without the
    keyword there are no modifiers. -/
def splitKeyword (tokens : List Text) : List Text × List Text :=
  if tokens.contains "class" then
    (tokens.takeWhile (· != "class".toList), (tokens.dropWhile (· != "class".toList)).drop 1)
  else ([], tokens)

def parse (line : Text) : Header :=
  let trimmed := line.trim
  let opensBody := trimmed.endsWith "\x7b"
  let tokens := Text.tokens (if opensBody then Text.trimEnd trimmed.dropLast else trimmed)
  let (modifiers, declared) := splitKeyword tokens
  let start : Header :=
    { modifiers := Text.join " " modifiers
      isAbstract := modifiers.any fun m => m = "abstract" || m = "sealed"
      opensBody }
  match splitName declared with
  | none => start
  | some (name, generics, clauses) =>
    let parent := clauseTokens .extends none clauses
    { start with
      name := some name
      generics
      superclass := if parent.isEmpty then none else some (Text.join " " parent)
      mixins := Text.splitTopLevel ',' (Text.join " " (clauseTokens .mixes none clauses))
      interfaces := Text.splitTopLevel ',' (Text.join " " (clauseTokens .implements none clauses)) }

def indentOf (line : Text) : Text :=
  line.takeWhile isBlank

/-- The name as it is written; a header without a name is written `None`. -/
def nameText (h : Header) : Text :=
  h.name.getD "None"

/-- Write the header, with the indentation of the line it replaces. -/
def render (h : Header) (replaced : Text) : Text :=
  let modifiers : Text := if h.modifiers.isEmpty && h.isAbstract then "abstract" else h.modifiers
  let parent := h.superclass.getD []
  indentOf replaced ++ Text.when (!modifiers.isEmpty) (modifiers ++ " ") ++ "class " ++
    h.nameText ++ h.generics ++
    Text.when (!parent.isEmpty) (" extends " ++ parent) ++
    Text.when (!h.mixins.isEmpty) (" with " ++ Text.join ", " h.mixins) ++
    Text.when (!h.interfaces.isEmpty) (" implements " ++ Text.join ", " h.interfaces) ++
    Text.when h.opensBody " \x7b"

/-- The name with its type parameters, without their bounds. -/
def type (h : Header) : Option Text :=
  if h.generics.isEmpty then h.name
  else
    let parameters := Text.splitTopLevel ',' ((h.generics.trim.drop 1).dropLast)
    let names := parameters.map fun p => ((Text.cut? " extends " p).map (·.1)).getD p |>.trim
    some (h.nameText ++ "<" ++ Text.join ", " names ++ ">")

def isWidget (h : Header) : Bool :=
  h.superclass = some "StatelessWidget".toList || h.superclass = some "StatefulWidget".toList

/-- Whether the class holds the state of a widget. -/
def isState (h : Header) : Bool :=
  !h.isWidget && (h.superclass.map fun parent => parent.startsWith "State<").getD false

/-- Whether equality comes from the equatable package. -/
def usesEquatable (h : Header) : Bool :=
  h.superclass = some "Equatable".toList || h.mixins.contains "EquatableMixin"

end Header

end ValueClass.Dart
