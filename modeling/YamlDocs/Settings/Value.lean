/-
  YamlDocs.Settings.Value
  ────────────────────────────────
  **WHAT A SETTING IS BOUND TO.**

  Files and overrides may bind a setting to anything; only text is of use.
  A scalar is bound as its text.  The other kinds are kept until all layers
  are merged, because a later layer may still replace them.
-/
import YamlDocs.Settings.Basic
import YamlDocs.Toml.Value

namespace YamlDocs

/-! ## §1. Values. -/

/-- What a setting is bound to. -/
inductive SettingValue where
  | text (value : Text)
  /-- An array, and how the file is called that holds it. -/
  | sequence (origin : Option Text)
  | table
  /-- No value. -/
  | unit
deriving DecidableEq, Repr

namespace SettingValue

/-- A scalar is bound as its text. -/
def ofScalar (value : Toml.Scalar) : SettingValue := .text value.text

/-- What binding a value of a file gives; an empty table gives nothing. -/
def ofValue? (origin : Text) : Toml.Value → Option SettingValue
  | .scalar value => some (.ofScalar value)
  | .array _ => some (.sequence (some origin))
  | .table entries => if entries.isEmpty then none else some .table

/-- The value after one of its elements is set: an array stays, all else gives way to a new one. -/
def withElement : SettingValue → SettingValue
  | .sequence origin => .sequence origin
  | _ => .sequence none

/-- The scalar that a JSON number writes: an integer if it is whole and fits 64 bits with sign, else
the nearest double. -/
def scalarOfNumeral (numeral : Text) : Toml.Scalar :=
  let value := Decimal.readSigned numeral
  if Decimal.isWhole numeral ∧ Toml.fitsInt64 value then .integer value
  else .float (.ofDecimal (.ofNumeral numeral))

/-- What binding a JSON value gives. -/
def ofJson : Json → SettingValue
  | .null => .unit
  | .boolean value => .ofScalar (.boolean value)
  | .number spelling => .ofScalar (scalarOfNumeral spelling)
  | .string value => .text value
  | .array _ => .sequence none
  | .object _ => .table

end SettingValue

/-! ## §2. Assignments. -/

/-- A value for each setting. -/
abbrev Assignment := SettingKey → SettingValue

namespace Assignment

/-- The assignment with one value replaced. -/
def set (values : Assignment) (key : SettingKey) (value : SettingValue) : Assignment :=
  fun other => if other = key then value else values other

/-- Every setting at its default. -/
def default : Assignment := fun key => .text (Settings.default.get key)

end Assignment

end YamlDocs
