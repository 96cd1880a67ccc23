/-
  YamlDocs.Settings.Layer
  ────────────────────────────────
  **LAYERS.**

  Settings come from the defaults, then from files in their order, then from
  overrides, of which the last for a key counts; so overrides stand above all
  files wherever they appear among them.  The keys of overrides are checked
  before any file is read.  When all layers are merged every setting has to
  be text, and then the markers have to be valid.
-/
import YamlDocs.Settings.File

namespace YamlDocs

/-! ## §1. Layers and sources. -/

/-- One layer of a configuration. -/
inductive Layer where
  | file (path : Path)
  | optionalFile (path : Path)
  | override (key : Text) (value : SettingValue)
deriving DecidableEq, Repr

/-- Where settings come from above the defaults. -/
structure Sources where
  files : List SettingsFile := []
  overrides : List (SettingKey × SettingValue) := []
deriving DecidableEq, Repr

namespace Sources

/-- The override of the setting with the given key. -/
def override (key : Text) (value : SettingValue) :
    Except SettingsError (SettingKey × SettingValue) :=
  match SettingKey.ofText? key with
  | some setting => .ok (setting, value)
  | none => .error (.unknownKey key)

/-- The sources with one more layer. -/
def add (sources : Sources) : Layer → Except SettingsError Sources
  | .file path => .ok { sources with files := sources.files ++ [⟨path, true⟩] }
  | .optionalFile path => .ok { sources with files := sources.files ++ [⟨path, false⟩] }
  | .override key value =>
    (override key value).map fun one => { sources with overrides := sources.overrides ++ [one] }

/-- The sources that layers give; the first override of an unknown key is refused. -/
def ofLayers (layers : List Layer) : Except SettingsError Sources := layers.foldlM add {}

end Sources

/-! ## §2. Merged values. -/

namespace Assignment

/-- The assignment with overrides on top; the last for a key counts. -/
def addOverrides (values : Assignment) (overrides : List (SettingKey × SettingValue)) :
    Assignment :=
  overrides.foldl (fun values (key, value) => values.set key value) values

/-- The text that a setting is bound to. -/
def text (values : Assignment) (key : SettingKey) : Except SettingsError Text :=
  match values key with
  | .text value => .ok value
  | value => .error (.wrongType key value)

/-- The settings with these values. -/
def settings (values : Assignment) : Except SettingsError Settings := do
  let root ← values.text .root
  let docDelimiter ← values.text (.marker .docDelimiter)
  let docParameter ← values.text (.marker .docParameter)
  let comment ← values.text (.marker .comment)
  match MarkerSet.ofTexts docDelimiter docParameter comment with
  | .ok markers => .ok { root, markers }
  | .error error => .error (.marker error)

end Assignment

/-! ## §3. Loading. -/

namespace Sources

/-- The merged value of every setting; the first file with an error is reported. -/
def merge (files : FileView) (workingDirectory : Path) (sources : Sources) :
    Except SettingsError Assignment :=
  (sources.files.foldlM (SettingsFile.add files workingDirectory) Assignment.default).map
    (·.addOverrides sources.overrides)

/-- The settings that sources give. -/
def load (files : FileView) (workingDirectory : Path) (sources : Sources) :
    Except SettingsError Settings :=
  match sources.merge files workingDirectory with
  | .ok values => values.settings
  | .error error => .error error

end Sources

/-- The settings that layers give above the defaults. -/
def Settings.load (files : FileView) (workingDirectory : Path) (layers : List Layer) :
    Except SettingsError Settings :=
  match Sources.ofLayers layers with
  | .ok sources => sources.load files workingDirectory
  | .error error => .error error

end YamlDocs
