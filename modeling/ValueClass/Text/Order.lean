import ValueClass.Text.Basic

/-! # The order of texts

Texts are ordered by code points, character by character.
-/

namespace ValueClass

/-- Whether a text comes before another or is the same. -/
def textLe : Text → Text → Bool
  | [], _ => true
  | _ :: _, [] => false
  | a :: as, b :: bs => a < b || (a == b && textLe as bs)

/-- Put a text into a sorted list, before equal ones. -/
def insertText (t : Text) : List Text → List Text
  | [] => [t]
  | u :: rest => if textLe t u then t :: u :: rest else u :: insertText t rest

def sortTexts (ts : List Text) : List Text :=
  ts.foldr insertText []

/-- Put a text into a sorted list, unless it is there. -/
def insertDistinct (t : Text) : List Text → List Text
  | [] => [t]
  | u :: rest =>
    if t == u then u :: rest
    else if textLe t u then t :: u :: rest
    else u :: insertDistinct t rest

def sortDistinct (ts : List Text) : List Text :=
  ts.foldr insertDistinct []

end ValueClass
