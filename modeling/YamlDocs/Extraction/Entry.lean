/-
  YamlDocs.Extraction.Entry
  ────────────────────────────────
  **EXTRACTED LINES.**

  An entry is one line of extracted documentation with the place it comes
  from; a buffer is the list of entries of a scan.  Separators are empty
  lines that the extraction puts in; every other entry holds text that an
  author wrote.
-/
import YamlDocs.Path.Basic

namespace YamlDocs

/-- What produced an entry. -/
inductive LineKind where
  | blockStart
  | comment
  | parameter
  | parameterContinuation
  | separator
deriving DecidableEq, Repr

/-- The name of a kind in the output formats. -/
def LineKind.text : LineKind → Text
  | .blockStart => "block-start".toList
  | .comment => "comment".toList
  | .parameter => "parameter".toList
  | .parameterContinuation => "parameter-continuation".toList
  | .separator => "separator".toList

/-- Different kinds have different names. -/
theorem LineKind.text_injective {kind other : LineKind} (h : kind.text = other.text) :
    kind = other := by
  revert h
  cases kind <;> cases other <;> decide

/-- One line of extracted documentation. -/
structure Entry where
  text : Text
  /-- The file that the line comes from. -/
  source : Path
  /-- The number of the line in that file, the first one being 1. -/
  line : Nat
  kind : LineKind
deriving DecidableEq, Repr

/-- What a scan extracts, in the order of the lines. -/
abbrev Buffer := List Entry

namespace Buffer

/-- The text of every entry, separators included. -/
def texts (buffer : Buffer) : List Text := buffer.map Entry.text

/-- Whether there is nothing but separators. -/
def isBlank (buffer : Buffer) : Bool := buffer.all fun entry => entry.kind == .separator

end Buffer

end YamlDocs
