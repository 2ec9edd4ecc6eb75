import ValueClass.Json.Display
import ValueClass.Settings.Setting
import ValueClass.Style
import ValueClass.Workspace.FileTree

/-! # Settings

Settings as they are loaded: a value for every known setting, and all other
entries under `custom`. Values keep the type they were given with; a switch is
on when its value counts as set.
-/

namespace ValueClass

inductive SettingsError where
  /-- A setting does not have one of its legal values. -/
  | illegalValue (setting : Setting) (value : Json)
  /-- Custom entries are no mapping. -/
  | customNotMapping
  /-- Custom entries are a list, but not of pairs. -/
  | customNotPairs
  | notNumber
  /-- The file does not exist. -/
  | fileMissing (path : Text)
  /-- The file is not called `.json`. -/
  | fileNotJson (path : Text)
  | fileMalformed (path reason : Text)
  /-- The file cannot be read. -/
  | fileUnreadable (path reason : Text)
  | fileNotUtf8
  /-- The file holds no object. -/
  | fileNotObject (path : Text)
  /-- The file goes beyond a limit of JSON documents. -/
  | fileBeyond (limit : Json.Limit)
  /-- The file cannot be written. -/
  | fileUnwritable (path reason : Text)
  /-- The file system refused the path. -/
  | refused (error : FileError)
  deriving Repr

def SettingsError.message : SettingsError → Text
  | .illegalValue setting value =>
    "Invalid " ++ setting.name ++ ": " ++ value.shown ++ " (expected one of: " ++
      Text.join ", " setting.legalValues ++ ")"
  | .customNotMapping => "custom must be a mapping"
  | .customNotPairs => "custom must be a mapping"
  | .notNumber => "a number was expected"
  | .fileMissing path => "Configuration file not found: " ++ path
  | .fileNotJson path => "Configuration file must be JSON: " ++ path
  | .fileMalformed path reason => "Invalid JSON in configuration file " ++ path ++ ": " ++ reason
  | .fileUnreadable path reason => "Failed to load configuration file " ++ path ++ ": " ++ reason
  | .fileNotUtf8 => "the configuration file is not UTF-8"
  | .fileNotObject path => "Configuration file must contain a JSON object: " ++ path
  | .fileBeyond limit => limit.wording
  | .fileUnwritable path reason => "Failed to save configuration to " ++ path ++ ": " ++ reason
  | .refused error => error.message

/-- Whether an error is about what the user wrote. For the others no message
    is made. -/
def SettingsError.isReported : SettingsError → Bool
  | .customNotMapping | .customNotPairs | .notNumber => false
  | .fileNotUtf8 | .fileBeyond _ | .refused _ => false
  | _ => true

structure Settings where
  /-- The value of every known setting. -/
  value : Setting → Json := Setting.default
  /-- The entries that are no known setting. -/
  custom : Json := .obj []

namespace Settings

/-- The prefix that editors put before every setting. -/
def editorScope : Text := "dart_data_class_generator."

/-- The name under which an entry is filed, and its value there. An editor's
    spelling is replaced by the name of the setting, and only then is its
    value taken in the editor's sense. -/
def fileEntry (entry : Text × Json) : Text × Json :=
  let key := (Text.dropStart? editorScope entry.1).getD entry.1
  match Setting.ofEditorName? key with
  | some setting => (setting.name, setting.ofEditorValue entry.2)
  | none => (key, entry.2)

/-- The entries of two layers; the later layer wins setting by setting. -/
def merge (file overrides : List (Text × Json)) : List (Text × Json) :=
  setMembers (overrides.map fileEntry) (setMembers (file.map fileEntry) [])

/-- The name of the entry that holds custom entries. -/
def customName : Text := "custom"

/-- Whether an entry is neither a known setting nor the custom one. -/
def isUnknown (name : Text) : Bool :=
  (Setting.ofName? name).isNone && name != customName

/-- A pair in a list that stands for a mapping: two items, a text of two
    characters, or the names of an object with two members. -/
def pair? : Json → Except SettingsError (Text × Json)
  | .arr [.str key, value] => .ok (key, value)
  | .arr [_, _] => .error .customNotMapping
  | .arr _ => .error .customNotPairs
  | .str [a, b] => .ok ([a], .str [b])
  | .str _ => .error .customNotPairs
  | .obj [(key, _), (value, _)] => .ok (key, .str value)
  | .obj _ => .error .customNotPairs
  | _ => .error .customNotMapping

/-- The pairs of a list that stands for a mapping. -/
def pairs? : List Json → Except SettingsError (List (Text × Json))
  | [] => .ok []
  | item :: rest => do
    let pair ← pair? item
    return pair :: (← pairs? rest)

/-- The entries of a value that stands for a mapping. -/
def mapping? : Json → Except SettingsError (List (Text × Json))
  | .obj members => .ok members
  | .arr items => do return setMembers (← pairs? items) []
  | .str [] => .ok []
  | .str _ => .error .customNotPairs
  | _ => .error .customNotMapping

/-- The custom value: the given one, with the unknown entries added. -/
def customOf (merged : List (Text × Json)) : Except SettingsError Json := do
  let given := (merged.lookup customName).getD (.obj [])
  let unknown := merged.filter fun entry => isUnknown entry.1
  if unknown.isEmpty then return given
  return .obj (setMembers unknown (← mapping? given))

/-- Check a setting that is restricted to some values. -/
def checkLegal (value : Setting → Json) (setting : Setting) : Except SettingsError Unit :=
  match value setting with
  | .str t => if setting.legalValues.contains t then .ok ()
    else .error (.illegalValue setting (.str t))
  | other => .error (.illegalValue setting other)

/-- Load settings from a file's entries and the entries that override them. -/
def load (file overrides : List (Text × Json)) : Except SettingsError Settings := do
  let merged := merge file overrides
  let value := fun (s : Setting) => (merged.lookup s.name).getD s.default
  let custom ← customOf merged
  checkLegal value .constructorRequiredStyle
  checkLegal value .hashCodeStrategy
  checkLegal value .jsonSeparate
  return { value, custom }

def isOn (s : Settings) (setting : Setting) : Bool :=
  (s.value setting).isTruthy

/-- Whether a restricted setting has the given value. -/
def isSetTo (s : Settings) (setting : Setting) (word : Text) : Bool :=
  match s.value setting with
  | .str t => t == word
  | _ => false

/-- The indentation of one level: a whole number of spaces, where a switch
    counts as zero or one. -/
def indentation (s : Settings) : Indentation :=
  match s.value .indentSize with
  | .int n => .ofInt n
  | .bool b => .spaces (if b then 1 else 0)
  | _ => .unusable .notWhole

/-- What the settings decide about written members. -/
def style (s : Settings) : Style where
  writesConstructor := s.isOn .constructorEnabled
  constructorDefaults := s.isOn .constructorDefaultValues
  requiredMark :=
    if s.isSetTo .constructorRequiredStyle "annotation" then .annotated
    else if s.isSetTo .constructorRequiredStyle "none" then .unmarked
    else .keyword
  writesCopyWith := s.isOn .copyWithEnabled
  writesToMap := s.isOn .toMapEnabled
  writesFromMap := s.isOn .fromMapEnabled
  mapDefaults := s.isOn .fromMapDefaultValues
  writesToJson := s.isOn .toJsonEnabled
  writesFromJson := s.isOn .fromJsonEnabled
  writesToString := s.isOn .toStringEnabled
  writesEquality := s.isOn .equalityEnabled
  writesHashCode := s.isOn .hashCodeEnabled
  hashStrategy := if s.isSetTo .hashCodeStrategy "combinator" then .combinator else .xor
  usesEquatable := s.isOn .useEquatable
  separate :=
    if s.isSetTo .jsonSeparate "always" then .always
    else if s.isSetTo .jsonSeparate "never" then .never
    else .ask
  detectsTimestamps := s.isOn .jsonDetectTimestamps
  reviewsEachMember := s.isOn .overrideManual
  indentation := s.indentation

/-- All entries, as they are shown and saved. A custom entry with the name of
    a known setting hides it. -/
def entries (s : Settings) : Except SettingsError (List (Text × Json)) := do
  return setMembers (← mapping? s.custom)
    (Setting.all.map fun setting => (setting.name, s.value setting))

end Settings

end ValueClass
