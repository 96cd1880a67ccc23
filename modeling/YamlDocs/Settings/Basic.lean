/-
  YamlDocs.Settings.Basic
  ────────────────────────────────
  **THE FOUR SETTINGS.**

  A configuration consists of the YAML root and the three markers.  Loaded
  settings carry a marker set, so their markers are never empty; the root may
  be.  Each setting has a key, under which files and overrides know it.
-/
import YamlDocs.Document.Environment
import YamlDocs.Extraction.Marker

namespace YamlDocs

/-! ## §1. Keys. -/

/-- The name of a setting. -/
inductive SettingKey where
  | root
  | marker (name : MarkerName)
deriving DecidableEq, Repr

namespace SettingKey

/-- All keys. -/
def all : List SettingKey :=
  [.root, .marker .docDelimiter, .marker .docParameter, .marker .comment]

/-- How a key is spelled. -/
def text : SettingKey → Text
  | .root => "autoyaml_root".toList
  | .marker name => "autoyaml_".toList ++ name.text

/-- The key with the given spelling. -/
def ofText? (text : Text) : Option SettingKey := all.find? (·.text = text)

end SettingKey

/-! ## §2. Settings. -/

/-- What a build is configured with. -/
structure Settings where
  /-- The YAML root, relative to the directory of the document sources. -/
  root : Text
  markers : MarkerSet
deriving DecidableEq, Repr

namespace Settings

/-- YAML files lie one directory above the documents and are marked by hash signs. -/
def default : Settings := { root := "..".toList, markers := .default }

instance : Inhabited Settings := ⟨default⟩

/-- The text of a setting. -/
def get (settings : Settings) : SettingKey → Text
  | .root => settings.root
  | .marker name => settings.markers.get name

/-- The environment of a build with these settings. -/
def environment (settings : Settings) (workingDirectory sourceDirectory : Path) : Environment :=
  { workingDirectory, sourceDirectory, root := settings.root, markers := settings.markers }

end Settings

end YamlDocs
