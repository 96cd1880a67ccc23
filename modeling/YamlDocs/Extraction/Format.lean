/-
  YamlDocs.Extraction.Format
  ────────────────────────────────
  **OUTPUT FORMATS.**

  `rst` writes the text of every entry on a line of its own; `tag` writes the
  place and the kind in front of it; `json` writes the list of entries with
  all their fields.  JSON holds text only, so an entry whose source is not
  UTF-8 cannot be written; the other two formats show such a path with
  U+FFFD.
-/
import YamlDocs.Extraction.Entry
import YamlDocs.Json.Value

namespace YamlDocs

/-- The output formats. -/
inductive Format where
  | rst
  | json
  | tag
deriving DecidableEq, Repr

/-- Why a buffer cannot be written. -/
inductive FormatError where
  /-- There is no format of this name. -/
  | unknown (name : Text)
  /-- An entry comes from a path that is not UTF-8. -/
  | sourceNotUtf8
deriving DecidableEq, Repr

/-- The wording of a `FormatError`. -/
def FormatError.message : FormatError → Text
  | .unknown name =>
    "unknown format '".toList ++ name ++ "' (available: rst, json, tag)".toList
  | .sourceNotUtf8 =>
    "JSON serialization failed: path contains invalid UTF-8 characters".toList

namespace Format

/-! ## §1. Names. -/

/-- All formats, in the order in which messages list them. -/
def all : List Format := [.rst, .json, .tag]

/-- The name of a format. -/
def name : Format → Text
  | .rst => "rst".toList
  | .json => "json".toList
  | .tag => "tag".toList

/-- The format with the given name, spelled exactly. -/
def ofName (name : Text) : Except FormatError Format :=
  match all.find? (·.name = name) with
  | some format => .ok format
  | none => .error (.unknown name)

/-! ## §2. The three formats. -/

/-- The text of every entry on a line of its own. -/
def toRst (buffer : Buffer) : Text := buffer.flatMap fun entry => entry.text ++ ['\n']

/-- Place, kind and text of an entry; an empty text leaves no blank at the end. -/
def tagLine (entry : Entry) : Text :=
  entry.source.display ++ ':' :: Text.ofNat entry.line ++ " <".toList ++ entry.kind.text ++
    '>' :: (if entry.text = [] then [] else ' ' :: entry.text)

/-- The tagged line of every entry. -/
def toTag (buffer : Buffer) : Text := buffer.flatMap fun entry => tagLine entry ++ ['\n']

/-- An entry as a JSON object, if its source is UTF-8. -/
def entryJson? (entry : Entry) : Option Json :=
  entry.source.toText?.map fun source =>
    .object [("text".toList, .string entry.text), ("source".toList, .string source),
      ("line".toList, .number (Text.ofNat entry.line)), ("kind".toList, .string entry.kind.text)]

/-- The entries as a JSON array. -/
def toJson (buffer : Buffer) : Except FormatError Text :=
  match buffer.mapM entryJson? with
  | some items => .ok ((Json.array items).pretty 0)
  | none => .error .sourceNotUtf8

/-! ## §3. Writing. -/

/-- A buffer in the given format. -/
def serialize (format : Format) (buffer : Buffer) : Except FormatError Text :=
  match format with
  | .rst => .ok (toRst buffer)
  | .json => toJson buffer
  | .tag => .ok (toTag buffer)

end Format

end YamlDocs
