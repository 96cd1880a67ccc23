/-
  YamlDocs.Toml.Statement
  ────────────────────────────────
  **KEYS, VALUES AND STATEMENTS.**

  A document is a list of statements, one a line: a key with its value, the
  header of a table, or the header of a row in an array of tables.  Keys are
  bare or quoted and joined by dots.  Arrays may spread over lines with
  comments and end in a comma; tables in braces stay on one line and may not.
  Containers nest less than `depthLimit` deep, and a dotted key has fewer keys
  than that.
-/
import YamlDocs.Toml.Quoted
import YamlDocs.Toml.Table

namespace YamlDocs.Toml

/-! ## §1. Between the tokens. -/

/-- What is left behind the blanks in front. -/
def skipBlanks (text : Text) : Text := text.dropWhile isBlank

/-- What is left behind blanks, line ends and comments, from inside a comment or outside. -/
def skipFiller : Bool → Text → Text
  | _, [] => []
  | _, '\n' :: rest => skipFiller false rest
  | _, '\r' :: '\n' :: rest => skipFiller false rest
  | false, '#' :: rest => skipFiller true rest
  | inComment, c :: rest =>
    if isBlank c ∨ (inComment ∧ isPlain c) then skipFiller inComment rest else c :: rest

/-- What is left behind the end of a statement: blanks, a comment and a line end or the end of the
text. -/
def finishLine? (text : Text) : Option Text :=
  match skipBlanks text with
  | '#' :: rest => endLine? (rest.dropWhile isPlain)
  | rest => endLine? rest
where
  endLine? : Text → Option Text
    | [] => some []
    | text => skipLineEnd? text

/-! ## §2. Keys. -/

/-- The characters of bare keys. -/
def isBareKeyChar (c : Char) : Bool := c.isAlphanum || c == '_' || c == '-'

/-- One key: bare, or quoted on one line. -/
def readKey? : Text → Option (Text × Text)
  | '"' :: rest => readBasic? (rest.length + 1) rest
  | '\'' :: rest => readLiteral? rest
  | text =>
    match text.span isBareKeyChar with
    | ([], _) => none
    | (key, rest) => some (key, rest)

/-- The depth that no container and no dotted key reaches. -/
def depthLimit : Nat := 80

/-- Keys joined by dots, with blanks around each; at most as many as the number says. -/
def readKeys? : Nat → Text → Option (KeyPath × Text)
  | 0, _ => none
  | count + 1, text => do
    let (key, rest) ← readKey? (skipBlanks text)
    match skipBlanks rest with
    | '.' :: rest =>
      (readKeys? count rest).map fun (path, rest) =>
        ({ path with parents := key :: path.parents }, rest)
    | rest => some (⟨[], key⟩, rest)

/-- A dotted key with the blanks around it. -/
def readKeyPath? (text : Text) : Option (KeyPath × Text) := readKeys? (depthLimit - 1) text

/-! ## §3. Values. -/

/-- The values of an array behind its bracket; `readItem?` reads one, and the number bounds the
text. -/
def readItems? (readItem? : Text → Option (Item × Text)) :
    Nat → Text → Option (List Item × Text)
  | 0, _ => none
  | fuel + 1, text =>
    match skipFiller false text with
    | ']' :: rest => some ([], rest)
    | text => do
      let (item, rest) ← readItem? text
      match skipFiller false rest with
      | ',' :: rest =>
        (readItems? readItem? fuel rest).map fun (items, rest) => (item :: items, rest)
      | ']' :: rest => some ([item], rest)
      | _ => none

/-- A key with its value; `readItem?` reads the value. -/
def readPair? (readItem? : Text → Option (Item × Text)) (text : Text) :
    Option (KeyPath × Item × Text) := do
  let (path, rest) ← readKeyPath? text
  match rest with
  | '=' :: rest => do
    let (item, rest) ← readItem? (skipBlanks rest)
    some (path, item, skipBlanks rest)
  | _ => none

/-- The pairs of a table in braces, added to the entries read so far. -/
def readPairs? (readItem? : Text → Option (Item × Text)) :
    Nat → Entries → Text → Option (Entries × Text)
  | 0, _, _ => none
  | fuel + 1, entries, text => do
    let (path, item, rest) ← readPair? readItem? text
    let entries ← entries.insert? path.key item path.parents
    match rest with
    | ',' :: rest => readPairs? readItem? fuel entries rest
    | '\x7d' :: rest => some (entries, rest)
    | _ => none

/-- A table in braces behind its opening brace. -/
def readInline? (readItem? : Text → Option (Item × Text)) (text : Text) :
    Option (Entries × Text) :=
  match skipBlanks text with
  | '\x7d' :: rest => some ([], rest)
  | text => readPairs? readItem? (text.length + 1) [] text

/-- A value that is no container; its first character tells its kind. -/
def readScalar? (text : Text) : Option (Scalar × Text) :=
  match text with
  | [] => none
  | c :: _ =>
    if c = '"' ∨ c = '\'' then (readString? text).map fun (value, rest) => (.string value, rest)
    else if c = '+' ∨ c = '-' ∨ c.isDigit then readNumeric? text
    else if c = 'i' ∨ c = 'n' then
      (readSpecial? text).map fun (value, rest) => (.float value, rest)
    else readBoolean? text

/-- A value; the number says how deep it may nest containers. -/
def readValue? : Nat → Text → Option (Item × Text)
  | depth + 1, '[' :: rest =>
    (readItems? (readValue? depth) (rest.length + 1) rest).map fun (items, rest) =>
      (.array items, rest)
  | depth + 1, '\x7b' :: rest =>
    (readInline? (readValue? depth) rest).map fun (entries, rest) => (.inline entries, rest)
  | _, text => (readScalar? text).map fun (value, rest) => (.scalar value, rest)

/-! ## §4. Statements. -/

/-- A line of a document. -/
inductive Statement where
  | pair (path : KeyPath) (item : Item)
  /-- The header of a table. -/
  | header (path : KeyPath)
  /-- The header of a row in an array of tables. -/
  | rowHeader (path : KeyPath)

/-- A dotted key with closing brackets behind it. -/
def readHeader? (closing : Text) (text : Text) : Option (KeyPath × Text) := do
  let (path, rest) ← readKeyPath? text
  let rest ← closing.isPrefixOf? rest
  some (path, rest)

/-- A statement; what ends its line is left. -/
def readStatement? : Text → Option (Statement × Text)
  | '[' :: '[' :: rest =>
    (readHeader? [']', ']'] rest).map fun (path, rest) => (.rowHeader path, rest)
  | '[' :: rest => (readHeader? [']'] rest).map fun (path, rest) => (.header path, rest)
  | text =>
    (readPair? (readValue? (depthLimit - 1)) text).map fun (path, item, rest) =>
      (.pair path item, rest)

/-- The statements of a text; the number bounds its length. -/
def readStatements? : Nat → Text → Option (List Statement)
  | 0, _ => none
  | fuel + 1, text =>
    match skipBlanks text with
    | [] => some []
    | text =>
      match finishLine? text with
      | some rest => readStatements? fuel rest
      | none => do
        let (statement, rest) ← readStatement? text
        let rest ← finishLine? rest
        let statements ← readStatements? fuel rest
        some (statement :: statements)

end YamlDocs.Toml
