/-
  YamlDocs.Json.Value
  ────────────────────────────────
  **JSON VALUES AND THEIR TEXT.**

  Objects keep their members in order and numbers keep their spelling.  Two
  printers: `compact` writes no blank, `pretty` puts every item on a line of
  its own, two spaces deeper than its container, and writes an empty
  container as `[]` or `{}`.
-/
import YamlDocs.Text.Basic

namespace YamlDocs

/-- A JSON value; a number is kept as it is spelled. -/
inductive Json where
  | null
  | boolean (value : Bool)
  | number (spelling : Text)
  | string (value : Text)
  | array (items : List Json)
  | object (members : List (Text × Json))
deriving Inhabited

namespace Json

/-! ## §1. Strings. -/

/-- The lower-case hexadecimal digit of a number below 16. -/
def hexDigit (n : Nat) : Char := Nat.digitChar (n % 16)

/-- An escape of four hexadecimal digits. -/
def unicodeEscape (n : Nat) : Text :=
  ['\\', 'u', hexDigit (n / 0x1000), hexDigit (n / 0x100), hexDigit (n / 0x10), hexDigit n]

/-- The escapes of a character outside the first plane or in it: a surrogate pair or one escape. -/
def unicodeEscapes (c : Char) : Text :=
  if c.toNat < 0x10000 then unicodeEscape c.toNat
  else
    unicodeEscape (0xD800 + (c.toNat - 0x10000) / 0x400) ++
      unicodeEscape (0xDC00 + (c.toNat - 0x10000) % 0x400)

/-- A character inside a string: quotes, backslashes and control characters are escaped, and with
`ascii` also everything beyond ASCII. -/
def escapeChar (ascii : Bool) (c : Char) : Text :=
  match c with
  | '"' => ['\\', '"']
  | '\\' => ['\\', '\\']
  | '\x08' => ['\\', 'b']
  | '\t' => ['\\', 't']
  | '\n' => ['\\', 'n']
  | '\x0c' => ['\\', 'f']
  | '\r' => ['\\', 'r']
  | c => if c.toNat < 0x20 ∨ (ascii ∧ 0x7F ≤ c.toNat) then unicodeEscapes c else [c]

/-- A text as a JSON string. -/
def quote (ascii : Bool) (text : Text) : Text :=
  '"' :: text.flatMap (escapeChar ascii) ++ ['"']

/-- The words for the two truth values. -/
def truthWord : Bool → Text
  | true => "true".toList
  | false => "false".toList

/-! ## §2. On one line. -/

mutual

/-- The value without any blank; `ascii` keeps the output within ASCII. -/
def compact (ascii : Bool) : Json → Text
  | .null => "null".toList
  | .boolean value => truthWord value
  | .number spelling => spelling
  | .string value => quote ascii value
  | .array items => '[' :: compactItems ascii items ++ [']']
  | .object members => '\x7b' :: compactMembers ascii members ++ ['\x7d']

/-- Items with commas between them. -/
def compactItems (ascii : Bool) : List Json → Text
  | [] => []
  | [item] => compact ascii item
  | item :: rest => compact ascii item ++ ',' :: compactItems ascii rest

/-- Members with commas between them. -/
def compactMembers (ascii : Bool) : List (Text × Json) → Text
  | [] => []
  | [(key, value)] => quote ascii key ++ ':' :: compact ascii value
  | (key, value) :: rest =>
    quote ascii key ++ ':' :: compact ascii value ++ ',' :: compactMembers ascii rest

end

/-! ## §3. On several lines. -/

/-- The blanks in front of a line at the given depth. -/
def indent (depth : Nat) : Text := List.replicate (2 * depth) ' '

mutual

/-- The value with every item of a container on a line of its own. -/
def pretty (depth : Nat) : Json → Text
  | .null => "null".toList
  | .boolean value => truthWord value
  | .number spelling => spelling
  | .string value => quote false value
  | .array [] => ['[', ']']
  | .array (item :: rest) =>
    '[' :: '\n' :: prettyItems (depth + 1) (item :: rest) ++ '\n' :: indent depth ++ [']']
  | .object [] => ['\x7b', '\x7d']
  | .object (member :: rest) =>
    '\x7b' :: '\n' :: prettyMembers (depth + 1) (member :: rest) ++
      '\n' :: indent depth ++ ['\x7d']

/-- Items on lines of their own. -/
def prettyItems (depth : Nat) : List Json → Text
  | [] => []
  | [item] => indent depth ++ pretty depth item
  | item :: rest => indent depth ++ pretty depth item ++ ',' :: '\n' :: prettyItems depth rest

/-- Members on lines of their own. -/
def prettyMembers (depth : Nat) : List (Text × Json) → Text
  | [] => []
  | [(key, value)] => indent depth ++ quote false key ++ ':' :: ' ' :: pretty depth value
  | (key, value) :: rest =>
    indent depth ++ quote false key ++ ':' :: ' ' :: pretty depth value ++
      ',' :: '\n' :: prettyMembers depth rest

end

/-! ## §4. Looking inside. -/

/-- The value of the first member of an object with the given key. -/
def member? (key : Text) : Json → Option Json
  | .object members => members.lookup key
  | _ => none

end Json

end YamlDocs
