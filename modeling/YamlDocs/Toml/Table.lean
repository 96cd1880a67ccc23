/-
  YamlDocs.Toml.Table
  ────────────────────────────────
  **TABLES.**

  A table remembers how it came to be, because that decides what may still
  be written into it: a header opens a table once, a dotted key adds only to
  tables that dotted keys made, and a table that was merely passed on the way
  to another one may still get a header.  Tables in braces and arrays are
  complete as they stand.  A table in an array of tables is reached through
  the array, which leads to its last row.
-/
import YamlDocs.Bindings
import YamlDocs.Toml.Scalar

namespace YamlDocs.Toml

/-! ## §1. Items. -/

/-- How a table came to be. -/
inductive TableForm where
  /-- A header opened it. -/
  | opened
  /-- A header passed it on the way to another table. -/
  | passed
  /-- A dotted key made it. -/
  | dotted
deriving DecidableEq, Repr

/-- What a key is bound to. -/
inductive Item where
  | scalar (value : Scalar)
  | array (items : List Item)
  /-- A table in braces. -/
  | inline (entries : List (Text × Item))
  | table (form : TableForm) (entries : List (Text × Item))
  /-- An array of tables: its last row, and the rows before it, last one first. -/
  | rows (last : List (Text × Item)) (before : List (List (Text × Item)))
deriving Inhabited

/-- The bindings of a table. -/
abbrev Entries := List (Text × Item)

/-- A dotted key: the keys on the way, and the one that is bound. -/
structure KeyPath where
  parents : List Text
  key : Text
deriving DecidableEq, Repr

namespace Entries

/-! ## §2. Dotted keys. -/

/-- The entries with one more; no key is bound twice. -/
def bind? (key : Text) (item : Item) (entries : Entries) : Option Entries :=
  if (entries.lookup key).isSome then none else some (entries ++ [(key, item)])

/-- The entries with `item` bound to a dotted key. Missing tables on the way are made; no table on
the way was opened by a header, and one that gets the entry was made by a dotted key. -/
def insert? (key : Text) (item : Item) : List Text → Entries → Option Entries
  | [], entries => bind? key item entries
  | name :: path, entries =>
    match (entries.lookup name).getD (.table .dotted []) with
    | .table form inner =>
      -- What a header opened or passed is not extended by the last step of a dotted key.
      if form = .opened ∨ (path = [] ∧ form ≠ .dotted) then none
      else
        (insert? key item path inner).map fun inner =>
          Bindings.set name (.table form inner) entries
    | .rows last before =>
      if path = [] then none
      else
        (insert? key item path last).map fun last => Bindings.set name (.rows last before) entries
    | _ => none

/-! ## §3. Headers. -/

/-- The entries after a change of the table that keys lead to, through the last rows of arrays of
tables. Missing tables on the way are made. -/
def within? (change : Entries → Option Entries) : List Text → Entries → Option Entries
  | [], entries => change entries
  | name :: path, entries =>
    match (entries.lookup name).getD (.table .passed []) with
    | .table form inner =>
      (within? change path inner).map fun inner => Bindings.set name (.table form inner) entries
    | .rows last before =>
      (within? change path last).map fun last => Bindings.set name (.rows last before) entries
    | _ => none

/-- The entries with the table `name` opened as the last of them: it is new or was only passed
before. -/
def openTable? (name : Text) (entries : Entries) : Option Entries :=
  match entries.lookup name with
  | none => some (entries ++ [(name, .table .opened [])])
  | some (.table .passed inner) =>
    some (entries.filter (·.1 ≠ name) ++ [(name, .table .opened inner)])
  | some _ => none

/-- The entries with one more row in the array of tables `name`, which may be new. -/
def openRow? (name : Text) (entries : Entries) : Option Entries :=
  match entries.lookup name with
  | none => some (Bindings.set name (.rows [] []) entries)
  | some (.rows last before) => some (Bindings.set name (.rows [] (last :: before)) entries)
  | some _ => none

end Entries

end YamlDocs.Toml
