/-
  YamlDocs.Toml.Value
  ────────────────────────────────
  **THE DATA OF A DOCUMENT.**

  When a document is complete, how its tables came to be no longer matters: a
  table is a list of entries and an array of tables is an array.  One key is
  reserved.  A table whose first entry has it stands for the date or the time
  that the string bound to it spells; what else the table holds is left out.
  Such a table with anything else bound to the key is a fault.
-/
import YamlDocs.Toml.Table

namespace YamlDocs.Toml

/-- A scalar, an array or a table. -/
inductive Value where
  | scalar (value : Scalar)
  | array (items : List Value)
  | table (entries : List (Text × Value))
deriving Inhabited

/-- What a table turns out to be. -/
inductive Content where
  | table (entries : List (Text × Value))
  | dateTime (value : DateTime)
deriving Inhabited

/-- The value of a table with this content. -/
def Content.value : Content → Value
  | .table entries => .table entries
  | .dateTime value => .scalar (.dateTime value)

/-! ## §1. Dates and times as tables. -/

/-- The key that makes a table a date or a time. -/
def dateTimeKey : Text := "$__toml_private_datetime".toList

/-- The date or time that a string spells. -/
def spelledDateTime? : Item → Option DateTime
  | .scalar (.string text) => DateTime.ofText? text
  | _ => none

/-! ## §2. Items as values. -/

mutual

/-- The value of an item. -/
def itemValue? : Item → Option Value
  | .scalar value => some (.scalar value)
  | .array items => (itemValues? items).map .array
  | .inline entries => (content? entries).map Content.value
  | .table _ entries => (content? entries).map Content.value
  | .rows last before => do
    let before ← rowValues? before
    let last ← content? last
    some (.array (before.reverse ++ [last.value]))

/-- The values of items. -/
def itemValues? : List Item → Option (List Value)
  | [] => some []
  | item :: rest => do
    let value ← itemValue? item
    let values ← itemValues? rest
    some (value :: values)

/-- What a table turns out to be: its first entry tells. -/
def content? : List (Text × Item) → Option Content
  | [] => some (.table [])
  | (key, item) :: rest =>
    if key = dateTimeKey then (spelledDateTime? item).map .dateTime
    else do
      let value ← itemValue? item
      let values ← entryValues? rest
      some (.table ((key, value) :: values))

/-- The entries of a table with their values. -/
def entryValues? : List (Text × Item) → Option (List (Text × Value))
  | [] => some []
  | (key, item) :: rest => do
    let value ← itemValue? item
    let values ← entryValues? rest
    some ((key, value) :: values)

/-- The values of tables. -/
def rowValues? : List (List (Text × Item)) → Option (List Value)
  | [] => some []
  | row :: rest => do
    let content ← content? row
    let values ← rowValues? rest
    some (content.value :: values)

end

end YamlDocs.Toml
