import ValueClass.Name.Words

/-! # File stems

The stem of the file that a class goes to. A stem that is taken gets the least
number that sets it apart.
-/

namespace ValueClass.Name

/-- The stem of a class before clashes are looked at. -/
def plainStem (className : Text) : Text :=
  match snake className with
  | [] => "generated"
  | stem => stem

def numbered (stem : Text) (k : Nat) : Text :=
  stem ++ "_" ++ Text.ofNat k

/-- The stem for a class when some stems are taken. Of the numbers up to one
    more than there are taken stems, one is always free. -/
def stem (className : Text) (taken : List Text) : Text :=
  let plain := plainStem className
  if taken.contains plain then
    let numbers := (List.range (taken.length + 1)).map (· + 1)
    match numbers.find? fun k => !taken.contains (numbered plain k) with
    | some k => numbered plain k
    | none => plain
  else plain

end ValueClass.Name
