import ValueClass.Settings.Basic
import ValueClass.Text.Order

/-! # Checking settings

Settings that load can still be pointless. Each of these cases is a warning;
comparing a value that is no number is an error.
-/

namespace ValueClass.Settings

def belowOne? : Json → Except SettingsError Bool
  | .int n => .ok (n < 1)
  | .bool b => .ok (!b)
  | .float x => .ok x.isBelowOne
  | _ => .error .notNumber

def belowZero? : Json → Except SettingsError Bool
  | .int n => .ok (n < 0)
  | .bool _ => .ok false
  | .float x => .ok x.isNegative
  | _ => .error .notNumber

/-- The texts of a list that holds nothing else. -/
def texts? : List Json → Except SettingsError (List Text)
  | [] => .ok []
  | .str t :: rest => do return t :: (← texts? rest)
  | _ :: _ => .error .customNotMapping

/-- The names that a custom value holds. -/
def customNames? : Json → Except SettingsError (List Text)
  | .obj members => .ok (members.map (·.1))
  | .arr items => texts? items
  | .str t => .ok (t.map fun c => [c])
  | _ => .error .customNotMapping

def warnings (s : Settings) : Except SettingsError (List Text) := do
  let indent := s.value .indentSize
  let delay := s.value .jsonWriteDelay
  let indentWarning : List Text :=
    if ← belowOne? indent then ["Invalid indent_size: " ++ indent.plain] else []
  let delayWarning : List Text :=
    if ← belowZero? delay then ["Invalid json_write_delay: " ++ delay.plain] else []
  let equatableWarning : List Text :=
    if s.isOn .useEquatable && (s.isOn .equalityEnabled || s.isOn .hashCodeEnabled) then
      ["use_equatable replaces equality/hashCode generation; " ++
        "equality_enabled and hash_code_enabled are ignored"]
    else []
  let customWarning : List Text ←
    if s.custom.isTruthy then
      do pure ["Unknown settings ignored: " ++ Text.join ", " (sortTexts (← customNames? s.custom))]
    else pure []
  return indentWarning ++ delayWarning ++ equatableWarning ++ customWarning

end ValueClass.Settings
