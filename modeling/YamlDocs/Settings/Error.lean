/-
  YamlDocs.Settings.Error
  ────────────────────────────────
  **WHAT CAN BE WRONG WITH A CONFIGURATION.**

  The message of an error may contain the message of its cause; a report
  that lists causes repeats that part.
-/
import YamlDocs.Settings.Value

namespace YamlDocs

/-- Why settings cannot be loaded. -/
inductive SettingsError where
  /-- There is no setting of this name. -/
  | unknownKey (key : Text)
  /-- There is no file of this name. -/
  | fileMissing (path : Path)
  /-- A file is not UTF-8. -/
  | fileNotUtf8
  /-- A file is no TOML document. -/
  | fileSyntax (path : Path)
  /-- A file, called so, is a single date or time and no table. -/
  | fileNotTable (origin : Text) (content : Toml.DateTime)
  /-- A setting is bound to something else than text. -/
  | wrongType (key : SettingKey) (value : SettingValue)
  /-- A marker is empty. -/
  | marker (error : MarkerError)
deriving DecidableEq, Repr

namespace SettingsError

/-- How messages call the kind of a value, and where it comes from. -/
def describe : SettingValue → Text × Option Text
  | .text _ => ("string".toList, none)
  | .sequence origin => ("sequence".toList, origin)
  | .table => ("map".toList, none)
  | .unit => ("unit value".toList, none)

/-- The message for a setting that is not text. -/
def typeMessage (key : SettingKey) (value : SettingValue) : Text :=
  let (kind, origin) := describe value
  "invalid type: ".toList ++ kind ++ ", expected a string for key `".toList ++ key.text ++ "`".toList ++
    (origin.map fun file => " in ".toList ++ file).getD []

/-- The message of the cause of an error, where it has one. -/
def cause? : SettingsError → Option Text
  | .unknownKey _ => none
  | .fileMissing path =>
    some ("configuration file \"".toList ++ path.display ++ "\" not found".toList)
  | .fileNotUtf8 => some notUtf8Message
  | .fileSyntax path => some ("\"".toList ++ path.display ++ "\" is not a TOML document".toList)
  | .fileNotTable origin content =>
    some ("invalid type: string \"".toList ++ content.text ++ "\", expected a map in ".toList ++
      origin ++ " in ".toList ++ origin)
  | .wrongType key value => some (typeMessage key value)
  | .marker error => some error.message

/-- The wording of a `SettingsError` without that of its cause. -/
def headline : SettingsError → Text
  | .unknownKey key => "unknown configuration key '".toList ++ key ++ ['\'']
  | .marker _ => "invalid configuration".toList
  | _ => "configuration error".toList

/-- The wording of a `SettingsError`. -/
def message (error : SettingsError) : Text :=
  error.headline ++ (error.cause?.map fun cause => ": ".toList ++ cause).getD []

/-- Whether an optional file may have this error: it cannot be found or read. -/
def isUnreadable : SettingsError → Bool
  | .fileMissing _ => true
  | .fileNotUtf8 => true
  | _ => false

end SettingsError

end YamlDocs
