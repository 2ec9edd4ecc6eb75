import ValueClass.Text.Basic

/-! # Questions to the user

Everything that asks the user takes the replies from a script and keeps the
questions, so that a run is a function of its inputs. Without a script nobody
is asked and everything is accepted.
-/

namespace ValueClass

inductive Reply where
  | accept
  | decline
  | cancel
  deriving Repr, DecidableEq

/-- The replies to come and the questions so far. -/
structure Interview where
  /-- The replies to come; `none` when nobody is asked. -/
  script : Option (List Reply) := none
  /-- The questions asked, in order. -/
  asked : List Text := []
  deriving Repr, DecidableEq

/-- Ask a question. A script that has run out cancels. -/
def Interview.ask (question : Text) : StateM Interview Reply := fun i =>
  match i.script with
  | none => (.accept, i)
  | some [] => (.cancel, { i with asked := i.asked ++ [question] })
  | some (reply :: rest) => (reply, { script := some rest, asked := i.asked ++ [question] })

end ValueClass
