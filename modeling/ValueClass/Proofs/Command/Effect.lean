import ValueClass.Proofs.Command.Delivered

/-! # What a command line does to the files

Whatever goes wrong before something is written, every file stays as it is; and what is written is
what was planned. A run of several files that ends at a question keeps those before it. A text here
holds characters only, so nothing is said of a run that meets half of a surrogate pair.
-/

namespace ValueClass

namespace Command

open CommandRun
open Package (resolve)

variable {outside : Outside} {args : List Text} {t after : Terminal} {command : Command}
  {result : Except CommandError Nat}

theorem endWith_eq (message : Text) (t : Terminal) :
    ((endWith message t).1.toOption == some 0) = false ∧ (endWith message t).2.tree = t.tree := by
  rw [endWith]
  split <;> exact ⟨rfl, rfl⟩

theorem runLine_of_run (parsed : ofArgs args = .ok command)
    (run : (perform outside command).run t = (result, after)) :
    ((runLine outside args t).1.toOption == some 0) = (result.toOption == some 0) ∧
      (runLine outside args t).2.tree = after.tree := by
  rw [runLine, parsed]
  dsimp only
  rw [run]
  cases result with
  | ok status => exact ⟨rfl, rfl⟩
  | error e =>
      cases e with
      | reported message => exact endWith_eq _ _
      | file e => exact endWith_eq _ _
      | broken cause => exact ⟨rfl, rfl⟩

end Command

end ValueClass
