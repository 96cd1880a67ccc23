/-
  YamlDocs.Extraction.Load
  ────────────────────────────────
  **EXTRACTING A FILE.**

  Loading reads a regular file as UTF-8 text and scans it.  Regular files are
  taken to be readable, so there are two ways to fail: the path names no
  regular file, or its bytes are not text.
-/
import YamlDocs.Extraction.Scan
import YamlDocs.Files.View

namespace YamlDocs

/-- Why the documentation of a path cannot be loaded. -/
inductive LoadError where
  /-- The path names no regular file. -/
  | notAFile (location : Path)
  /-- The file is not UTF-8. -/
  | notUtf8 (location : Path)
deriving DecidableEq, Repr

namespace LoadError

/-- The path that was tried. -/
def location : LoadError → Path
  | .notAFile location => location
  | .notUtf8 location => location

/-- The wording of a `LoadError`. -/
def message : LoadError → Text
  | .notAFile location => "location \"".toList ++ location.display ++ "\" is not a file.".toList
  | .notUtf8 location =>
    "failed to read \"".toList ++ location.display ++ "\": ".toList ++ notUtf8Message

end LoadError

/-- The documentation of the file at a path. -/
def load (files : FileView) (markers : MarkerSet) (location : Path) : Except LoadError Buffer :=
  match files.file? location with
  | none => .error (.notAFile location)
  | some bytes =>
    match Utf8.decode? bytes with
    | none => .error (.notUtf8 location)
    | some text => .ok (extract markers location text)

end YamlDocs
