import ValueClass.Json.Read
import ValueClass.Json.Write
import ValueClass.Settings.Basic
import ValueClass.Workspace.FileTree

/-! # Settings in files

Settings are loaded from a JSON file with the ending `.json`, and saved with
one entry to a line.
-/

namespace ValueClass

def FileTree.settingsEntries (tree : FileTree) (p : Path) :
    Except SettingsError (List (Text × Json)) := do
  if !(← (tree.contains p).mapError .refused) then throw (.fileMissing p.text)
  if !p.isJson then throw (.fileNotJson p.text)
  let bytes ← (tree.read p).mapError fun e => .fileUnreadable p.text e.message
  let decoded ← (Utf8.decode bytes).mapError fun _ => .fileNotUtf8
  let text := Utf8.normalizeLineEnds decoded
  match Json.read text with
  | .error ⟨.beyond limit, _⟩ => throw (.fileBeyond limit)
  | .error e => throw (.fileMalformed p.text (e.message text))
  | .ok (.obj members) => return members
  | .ok _ => throw (.fileNotObject p.text)

/-- Load settings from a file, if one is given, and the entries that override
    it. -/
def FileTree.loadSettings (tree : FileTree) (file : Text) (overrides : List (Text × Json)) :
    Except SettingsError Settings := do
  let entries ← if file.isEmpty then pure [] else tree.settingsEntries (.ofText file)
  Settings.load entries overrides

/-- What it means that settings cannot be written. -/
def SettingsError.ofWriteError (e : FileError) : SettingsError :=
  if e.fault == .zeroInPath then .refused e else .fileUnwritable e.path.text e.message

/-- Save settings to a file in a directory that exists. -/
def FileTree.saveSettings (tree : FileTree) (settings : Settings) (p : Path) :
    Except SettingsError FileTree := do
  let text := (Json.obj (← settings.entries)).indented
  (tree.write p (Utf8.encode text)).mapError .ofWriteError

end ValueClass
