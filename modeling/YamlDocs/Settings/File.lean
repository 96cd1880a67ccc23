/-
  YamlDocs.Settings.File
  ────────────────────────────────
  **CONFIGURATION FILES.**

  A file is looked up as given and then with `.toml` behind its name.  Its
  top-level entries are bound one after the other.  A key names a setting in
  letters of any case; a key such as `name.x` or `name[0]` reaches into the
  setting `name` and makes a table or an array of it.  Keys of no setting are
  left alone.
-/
import YamlDocs.Settings.Error
import YamlDocs.Toml.Document

namespace YamlDocs

/-! ## §1. Keys that reach into a setting. -/

/-- What a key of a file is about. -/
inductive KeyTarget where
  | whole (name : Text)
  /-- A member of a table. -/
  | member (name : Text)
  /-- An element of an array. -/
  | element (name : Text)
deriving DecidableEq, Repr

namespace KeyTarget

/-- The characters of names in a key. -/
def isNameChar (c : Char) : Bool := c.isAlphanum || c == '_' || c == ' ' || c == '-'

/-- What is left behind a name. -/
def skipName? (text : Text) : Option Text :=
  match text.span isNameChar with
  | ([], _) => none
  | (_, rest) => some rest

/-- What is left behind an index in brackets, of which the first is gone. -/
def skipIndex? (text : Text) : Option Text :=
  let (negative, unsigned) := match Toml.skipBlanks text with
    | '-' :: rest => (true, rest)
    | rest => (false, rest)
  let (digits, rest) := unsigned.span Char.isDigit
  let value : Int := Text.digitsValue digits
  match Toml.skipBlanks rest with
  | ']' :: rest =>
    if digits ≠ [] ∧ Toml.fitsInt64 (if negative then -value else value) then some rest else none
  | _ => none

/-- Whether a text is a run of names behind dots and indices; the number bounds its length. -/
def isReach : Nat → Text → Bool
  | _, [] => true
  | fuel + 1, '.' :: rest => (skipName? rest).elim false (isReach fuel)
  | fuel + 1, '[' :: rest => (skipIndex? rest).elim false (isReach fuel)
  | _, _ => false

/-- What a key is about: the first step behind the name tells. A key that is spelled otherwise is a
name as a whole. -/
def ofKey (key : Text) : KeyTarget :=
  let (name, reach) := key.span isNameChar
  -- Every step takes at least one character, so the length bounds their count.
  if name ≠ [] ∧ isReach reach.length reach then
    match reach with
    | '.' :: _ => .member name
    | '[' :: _ => .element name
    | _ => .whole name
  else .whole key

end KeyTarget

/-! ## §2. Entries. -/

namespace Assignment

/-- The assignment after an entry of the file that is called `origin`. -/
def addEntry (origin : Text) (values : Assignment) : Text × Toml.Value → Assignment
  | (key, value) =>
    match KeyTarget.ofKey key with
    | .whole name =>
      match SettingKey.ofText? (Text.lowerAscii name), SettingValue.ofValue? origin value with
      | some setting, some bound => values.set setting bound
      | _, _ => values
    | .member name =>
      match SettingKey.ofText? (Text.lowerAscii name) with
      | some setting => values.set setting .table
      | none => values
    | .element name =>
      match SettingKey.ofText? (Text.lowerAscii name) with
      | some setting => values.set setting (values setting).withElement
      | none => values

/-- The assignment after all entries of a file. -/
def addEntries (origin : Text) (values : Assignment) (entries : List (Text × Toml.Value)) :
    Assignment :=
  entries.foldl (addEntry origin) values

end Assignment

/-! ## §3. Files. -/

/-- A file that may or must be there. -/
structure SettingsFile where
  path : Path
  required : Bool
deriving DecidableEq, Repr

namespace SettingsFile

/-- The ending that a file name may lack. -/
def ending : Text := ".toml".toList

/-- The paths at which a file is looked up, in order. -/
def candidates (workingDirectory path : Path) : List Path :=
  let whole := workingDirectory.join path
  whole :: (whole.withSuffix? ending).toList

/-- The first candidate that names a regular file, and its bytes. -/
def find? (files : FileView) (candidates : List Path) : Option (Path × Bytes) :=
  candidates.findSome? fun path => (files.file? path).map (path, ·)

/-- The entries of a file, and how the file is called as seen from the working directory. -/
def read (files : FileView) (workingDirectory path : Path) :
    Except SettingsError (Text × List (Text × Toml.Value)) :=
  match find? files (candidates workingDirectory path) with
  | none => .error (.fileMissing path)
  | some (found, bytes) =>
    match Utf8.decode? bytes with
    | none => .error .fileNotUtf8
    | some text =>
      match Toml.readDocument? text with
      | none => .error (.fileSyntax path)
      | some content =>
        let origin := (found.relativeTo workingDirectory).display
        match content with
        | .table entries => .ok (origin, entries)
        | .dateTime value => .error (.fileNotTable origin value)

/-- The assignment after a file; one that is not required may be missing or not UTF-8. -/
def add (files : FileView) (workingDirectory : Path) (values : Assignment) (file : SettingsFile) :
    Except SettingsError Assignment :=
  match read files workingDirectory file.path with
  | .ok (origin, entries) => .ok (values.addEntries origin entries)
  | .error error =>
    if error.isUnreadable ∧ ¬ file.required then .ok values else .error error

end SettingsFile

end YamlDocs
