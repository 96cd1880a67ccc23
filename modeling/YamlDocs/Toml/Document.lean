/-
  YamlDocs.Toml.Document
  ────────────────────────────────
  **DOCUMENTS.**

  The statements of a document build its top-level table one after the
  other: pairs go into the table of the last header.  A document with a fault
  in any line, with a statement that does not fit the ones before it, or with
  a table that stands for no date or time though its key says so, has no
  value.
-/
import YamlDocs.Toml.Statement
import YamlDocs.Toml.Value

namespace YamlDocs.Toml

/-- A document up to some line: its top-level table, and the keys that lead to the table of the
last header. -/
structure Draft where
  entries : Entries := []
  place : List Text := []

namespace Draft

/-- The draft after one more statement, if the statement fits. -/
def add? (draft : Draft) : Statement → Option Draft
  | .pair path item =>
    (draft.entries.within? (Entries.insert? path.key item path.parents) draft.place).map
      fun entries => { draft with entries }
  | .header path =>
    (draft.entries.within? (Entries.openTable? path.key) path.parents).map
      fun entries => { entries, place := path.parents ++ [path.key] }
  | .rowHeader path =>
    (draft.entries.within? (Entries.openRow? path.key) path.parents).map
      fun entries => { entries, place := path.parents ++ [path.key] }

end Draft

/-- The text without a byte order mark in front. -/
def dropByteOrderMark : Text → Text
  | '\ufeff' :: rest => rest
  | text => text

/-- What the top-level table of a document turns out to be; none if the text is no document. -/
def readDocument? (text : Text) : Option Content := do
  let text := dropByteOrderMark text
  let statements ← readStatements? (text.length + 1) text
  let draft ← statements.foldlM Draft.add? {}
  content? draft.entries

end YamlDocs.Toml
