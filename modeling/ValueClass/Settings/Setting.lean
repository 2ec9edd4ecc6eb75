import ValueClass.Json.Basic

/-! # The known settings

Every setting has a name, a default value and, for most of them, the spelling
that editors use.
-/

namespace ValueClass

inductive Setting where
  | constructorEnabled
  /-- Default values for constructor parameters. -/
  | constructorDefaultValues
  /-- The mark of required parameters. -/
  | constructorRequiredStyle
  | copyWithEnabled
  | toMapEnabled
  | fromMapEnabled
  /-- Default values for missing map values. -/
  | fromMapDefaultValues
  | toJsonEnabled
  | fromJsonEnabled
  | toStringEnabled
  | equalityEnabled
  | hashCodeEnabled
  /-- The way hash codes are combined. -/
  | hashCodeStrategy
  /-- Compare by the equatable package. -/
  | useEquatable
  /-- One file for each class that comes from JSON. -/
  | jsonSeparate
  /-- Read dates in JSON strings. -/
  | jsonDetectTimestamps
  /-- Seconds between two written files. -/
  | jsonWriteDelay
  /-- Ask for each replaced member. -/
  | overrideManual
  | indentSize
  deriving Repr, DecidableEq

namespace Setting

/-- The settings in the order they are shown and saved. -/
def all : List Setting :=
  [.constructorEnabled, .constructorDefaultValues, .constructorRequiredStyle, .copyWithEnabled,
   .toMapEnabled, .fromMapEnabled, .fromMapDefaultValues, .toJsonEnabled, .fromJsonEnabled,
   .toStringEnabled, .equalityEnabled, .hashCodeEnabled, .hashCodeStrategy, .useEquatable,
   .jsonSeparate, .jsonDetectTimestamps, .jsonWriteDelay, .overrideManual, .indentSize]

def name : Setting → Text
  | .constructorEnabled => "constructor_enabled"
  | .constructorDefaultValues => "constructor_default_values"
  | .constructorRequiredStyle => "constructor_required_style"
  | .copyWithEnabled => "copy_with_enabled"
  | .toMapEnabled => "to_map_enabled"
  | .fromMapEnabled => "from_map_enabled"
  | .fromMapDefaultValues => "from_map_default_values"
  | .toJsonEnabled => "to_json_enabled"
  | .fromJsonEnabled => "from_json_enabled"
  | .toStringEnabled => "to_string_enabled"
  | .equalityEnabled => "equality_enabled"
  | .hashCodeEnabled => "hash_code_enabled"
  | .hashCodeStrategy => "hash_code_strategy"
  | .useEquatable => "use_equatable"
  | .jsonSeparate => "json_separate"
  | .jsonDetectTimestamps => "json_detect_timestamps"
  | .jsonWriteDelay => "json_write_delay"
  | .overrideManual => "override_manual"
  | .indentSize => "indent_size"

/-- The value of a setting that nobody sets. -/
def default : Setting → Json
  | .constructorRequiredStyle => .str "required"
  | .hashCodeStrategy => .str "xor"
  | .jsonSeparate => .str "ask"
  | .jsonWriteDelay => .float (.ofDecimal false 12 (-2))
  | .indentSize => .int 2
  | .constructorDefaultValues => .bool false
  | .fromMapDefaultValues => .bool false
  | .useEquatable => .bool false
  | .jsonDetectTimestamps => .bool false
  | .overrideManual => .bool false
  | _ => .bool true

/-- The spelling of a setting in editors, where it has one. -/
def editorName? : Setting → Option Text
  | .constructorEnabled => some "constructor.enabled".toList
  | .constructorDefaultValues => some "constructor.default_values".toList
  | .constructorRequiredStyle => some "constructor.required".toList
  | .copyWithEnabled => some "copyWith.enabled".toList
  | .toMapEnabled => some "toMap.enabled".toList
  | .fromMapEnabled => some "fromMap.enabled".toList
  | .fromMapDefaultValues => some "fromMap.default_values".toList
  | .toJsonEnabled => some "toJson.enabled".toList
  | .fromJsonEnabled => some "fromJson.enabled".toList
  | .toStringEnabled => some "toString.enabled".toList
  | .equalityEnabled => some "equality.enabled".toList
  | .hashCodeEnabled => some "hashCode.enabled".toList
  | .hashCodeStrategy => some "hashCode.use_jenkins".toList
  | .useEquatable => some "useEquatable".toList
  | .jsonSeparate => some "json.separate".toList
  | .overrideManual => some "override.manual".toList
  | .jsonDetectTimestamps => none
  | .jsonWriteDelay => none
  | .indentSize => none

def ofName? (name : Text) : Option Setting :=
  all.find? fun s => s.name == name

/-- The setting with an editor's spelling. -/
def ofEditorName? (name : Text) : Option Setting :=
  all.find? fun s => s.editorName? == some name

/-- The values that a setting is restricted to, for settings that are. -/
def legalValues : Setting → List Text
  | .constructorRequiredStyle => ["required", "annotation", "none"]
  | .hashCodeStrategy => ["xor", "combinator"]
  | .jsonSeparate => ["ask", "always", "never"]
  | _ => []

/-- What an editor's value means for a setting: switches stand for two of the
    legal values, and the layout of files has words of its own. -/
def ofEditorValue : Setting → Json → Json
  | .constructorRequiredStyle, .bool b => .str (if b then "required" else "none")
  | .hashCodeStrategy, .bool b => .str (if b then "combinator" else "xor")
  | .jsonSeparate, .str t =>
    if t = "seperate" || t = "separate" then .str "always"
    else if t = "current_file" || t = "single" then .str "never"
    else .str t
  | _, value => value

end Setting

end ValueClass
