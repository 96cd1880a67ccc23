/-
  YamlDocs.Extraction.Marker
  ────────────────────────────────
  **THE MARKERS OF DOCUMENTATION LINES.**

  Three literal texts mark the documentation lines of a YAML file: one opens
  a block, one documents a parameter, one continues a block.  They may be
  equal or begin with one another, but none of them is empty; a `MarkerSet`
  carries the proof.
-/
import YamlDocs.Json.Value

namespace YamlDocs

/-- The three places in a marker set. -/
inductive MarkerName where
  | docDelimiter
  | docParameter
  | comment
deriving DecidableEq, Repr

/-- How a marker is called in messages and in JSON. -/
def MarkerName.text : MarkerName → Text
  | .docDelimiter => "doc_delimiter".toList
  | .docParameter => "doc_parameter".toList
  | .comment => "comment".toList

/-- The markers that tell documentation from other lines. -/
structure MarkerSet where
  /-- Opens a documentation block. -/
  docDelimiter : Text
  /-- Documents a single key inside a block. -/
  docParameter : Text
  /-- Continues a block. -/
  comment : Text
  docDelimiter_ne_nil : docDelimiter ≠ []
  docParameter_ne_nil : docParameter ≠ []
  comment_ne_nil : comment ≠ []
deriving DecidableEq, Repr

/-- A marker that is empty, which every line would begin with. -/
inductive MarkerError where
  | empty (name : MarkerName)
deriving DecidableEq, Repr

/-- The wording of a `MarkerError`. -/
def MarkerError.message : MarkerError → Text
  | .empty name => "marker `".toList ++ name.text ++ "` must not be empty".toList

namespace MarkerSet

/-! ## §1. Building. -/

/-- The marker set with the given texts; the first empty one is refused. -/
def ofTexts (docDelimiter docParameter comment : Text) : Except MarkerError MarkerSet :=
  if hd : docDelimiter = [] then .error (.empty .docDelimiter)
  else if hp : docParameter = [] then .error (.empty .docParameter)
  else if hc : comment = [] then .error (.empty .comment)
  else .ok ⟨docDelimiter, docParameter, comment, hd, hp, hc⟩

/-- Three hash signs open a block, two document a parameter and one continues. -/
def default : MarkerSet :=
  ⟨['#', '#', '#'], ['#', '#'], ['#'], by decide, by decide, by decide⟩

instance : Inhabited MarkerSet := ⟨default⟩

/-! ## §2. Looking at a set. -/

/-- The marker with the given name. -/
def get (markers : MarkerSet) : MarkerName → Text
  | .docDelimiter => markers.docDelimiter
  | .docParameter => markers.docParameter
  | .comment => markers.comment

/-- A marker set as a JSON object, in the order of its fields. -/
def toJson (markers : MarkerSet) : Json :=
  .object ([MarkerName.docDelimiter, .docParameter, .comment].map fun name =>
    (name.text, .string (markers.get name)))

end MarkerSet

end YamlDocs
