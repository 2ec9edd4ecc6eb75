import ValueClass.Name.Words
import ValueClass.Text.Digit

/-! # Names that are safe to write

A policy turns arbitrary text into a name that a target language accepts. It
is a function of the text and the case alone. A `Namer` remembers the answers
that a policy has given, so that a long document asks for each name once.
-/

namespace ValueClass

inductive NameCase where
  /-- Only characters that cannot stand in a name are touched. -/
  | preserve
  | snake
  | camel
  | pascal
  deriving Repr, DecidableEq

def NameCase.label : NameCase → Text
  | .preserve => "preserve"
  | .snake => "snake"
  | .camel => "camel"
  | .pascal => "pascal"

/-- How a reserved word is spelled to make it a name. -/
inductive Respelling where
  | trailingUnderscore
  | doubledInitial
  deriving Repr, DecidableEq

def Respelling.apply : Respelling → Text → Text
  | .trailingUnderscore, word => word ++ "_"
  | .doubledInitial, [] => []
  | .doubledInitial, c :: rest => c :: (upperChar c ++ rest)

/-- What names a target language refuses, and what is written instead. -/
structure NamePolicy where
  reserved : List Text := []
  /-- Names of types that a name would hide. -/
  builtins : List Text := []
  /-- Put before a name that starts with a digit. -/
  digitMark : Text := "n"
  /-- The name of a text that holds no usable character. -/
  fallback : Text := "field"
  /-- The way out of a clash with `reserved` or `builtins`. -/
  respelling : Respelling := .trailingUnderscore
  deriving Repr, DecidableEq

namespace NamePolicy

/-- Join the usable runs of a text; every run but the first is capitalised. -/
def clean (policy : NamePolicy) (text : Text) : Text :=
  match text.runs Text.isPlain with
  | [] => policy.fallback
  | first :: rest => first ++ rest.flatMap Name.capitalize

/-- Respell a cleaned name in the wanted case. -/
def recase (name : Text) : NameCase → Text
  | .preserve => name
  | .snake => Name.snake name
  | .pascal => Name.pascal name
  | .camel =>
    match Name.pascal name with
    | [] => []
    | c :: rest => Text.lower [c] ++ rest

/-- Respell a word that the language refuses. -/
def avoidClash (policy : NamePolicy) (name : Text) : Text :=
  if policy.reserved.contains name || policy.builtins.contains name then
    policy.respelling.apply name
  else name

/-- Mark a name that starts with a digit. -/
def avoidDigit (policy : NamePolicy) (name : Text) : Text :=
  if (name.head?.map isDigitChar).getD false then policy.digitMark ++ name else name

def nameFor (policy : NamePolicy) (text : Text) (case : NameCase) : Text :=
  policy.avoidDigit (policy.avoidClash (recase (policy.clean text) case))

end NamePolicy

/-- A policy with the names that it has given so far. -/
structure Namer where
  policy : NamePolicy
  /-- Given names under the text and case that they were asked for. -/
  known : List (Text × Text) := []
  deriving Repr, DecidableEq

namespace Namer

/-- The key of a question: no case label holds an underscore, so different
    questions have different keys. -/
def key (text : Text) (case : NameCase) : Text :=
  text ++ "_" ++ case.label

/-- Answer a question, from memory where it was asked before. -/
def nameFor (text : Text) (case : NameCase) : StateM Namer Text := fun namer =>
  match namer.known.lookup (key text case) with
  | some name => (name, namer)
  | none =>
    let name := namer.policy.nameFor text case
    (name, { namer with known := (key text case, name) :: namer.known })

end Namer

end ValueClass
