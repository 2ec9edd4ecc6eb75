import ValueClass.Text.Basic

/-! # Names of logs

All logs of the program lie below one name.
-/

namespace ValueClass.Log

def rootName : Text := "dart_data_class"

def fullName (name : Text) : Text :=
  if name.startsWith rootName then name else rootName ++ "." ++ name

end ValueClass.Log
