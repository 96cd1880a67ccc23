/-
  YamlDocs.Json.Reader
  ────────────────────────────────
  **READING JSON.**

  A recursive reader over the characters: each function takes what is left
  of the text and returns what it read with the rest.  Containers nest, so
  the reader of values counts down from the length of the text, which bounds
  the depth.  Escapes of a surrogate pair give one character; a lone
  surrogate is refused.
-/
import YamlDocs.Json.Value

namespace YamlDocs.Json

/-! ## §1. Blanks and words. -/

/-- The four characters that JSON allows between tokens. -/
def isGap (c : Char) : Bool := c == ' ' || c == '\t' || c == '\n' || c == '\r'

/-- What is left behind the blanks in front. -/
def skipGap (text : Text) : Text := text.dropWhile isGap

/-- What is left behind `word`, if the text begins with it. -/
def skipWord? (word : Text) (text : Text) : Option Text := word.isPrefixOf? text

/-! ## §2. Numbers. -/

/-- A run of at least one digit. -/
def readDigits? (text : Text) : Option (Text × Text) :=
  match text.span Char.isDigit with
  | ([], _) => none
  | (digits, rest) => some (digits, rest)

/-- An integer part: a zero alone or digits that begin with another digit. -/
def readWhole? : Text → Option (Text × Text)
  | '0' :: rest => some (['0'], rest)
  | text => readDigits? text

/-- A fraction, where there is one. -/
def readFraction? : Text → Option (Text × Text)
  | '.' :: rest => (readDigits? rest).map fun (digits, rest) => ('.' :: digits, rest)
  | text => some ([], text)

/-- The sign of an exponent, where there is one. -/
def readExponentSign : Text → Text × Text
  | '+' :: rest => (['+'], rest)
  | '-' :: rest => (['-'], rest)
  | text => ([], text)

/-- An exponent, where there is one. -/
def readExponent? : Text → Option (Text × Text)
  | [] => some ([], [])
  | c :: rest =>
    if c = 'e' ∨ c = 'E' then
      let (sign, rest) := readExponentSign rest
      (readDigits? rest).map fun (digits, rest) => (c :: sign ++ digits, rest)
    else some ([], c :: rest)

/-- The spelling of a number. -/
def readNumber? (text : Text) : Option (Text × Text) := do
  let (sign, rest) := match text with
    | '-' :: rest => (['-'], rest)
    | rest => ([], rest)
  let (whole, rest) ← readWhole? rest
  let (fraction, rest) ← readFraction? rest
  let (exponent, rest) ← readExponent? rest
  some (sign ++ whole ++ fraction ++ exponent, rest)

/-! ## §3. Strings. -/

/-- The number that four hexadecimal digits write. -/
def hexNumber? (a b c d : Char) : Option Nat := do
  let a ← Text.hexDigit? a
  let b ← Text.hexDigit? b
  let c ← Text.hexDigit? c
  let d ← Text.hexDigit? d
  some (((a * 16 + b) * 16 + c) * 16 + d)

/-- The character that a backslash and one more character stand for. -/
def shortEscape? : Char → Option Char
  | '"' => some '"'
  | '\\' => some '\\'
  | '/' => some '/'
  | 'b' => some '\x08'
  | 'f' => some '\x0c'
  | 'n' => some '\n'
  | 'r' => some '\r'
  | 't' => some '\t'
  | _ => none

/-- Puts a character in front of what was read. -/
def consRead (c : Char) : Text × Text → Text × Text
  | (value, rest) => (c :: value, rest)

/-- A string behind its opening quote. -/
def readString? : Text → Option (Text × Text)
  | [] => none
  | '"' :: rest => some ([], rest)
  | '\\' :: 'u' :: a :: b :: c :: d :: rest =>
    match hexNumber? a b c d with
    | none => none
    | some n =>
      if 0xD800 ≤ n ∧ n < 0xDC00 then
        match rest with
        | '\\' :: 'u' :: e :: f :: g :: h :: rest =>
          match hexNumber? e f g h with
          | none => none
          | some m =>
            if 0xDC00 ≤ m ∧ m < 0xE000 then
              (readString? rest).map
                (consRead (.ofNat (0x10000 + (n - 0xD800) * 0x400 + (m - 0xDC00))))
            else none
        | _ => none
      else if 0xDC00 ≤ n ∧ n < 0xE000 then none
      else (readString? rest).map (consRead (.ofNat n))
  | '\\' :: c :: rest =>
    match shortEscape? c with
    | some c => (readString? rest).map (consRead c)
    | none => none
  | c :: rest => if c.toNat < 0x20 then none else (readString? rest).map (consRead c)

/-! ## §4. Values. -/

mutual

/-- A value; the number bounds how deep containers nest. -/
def readValue? : Nat → Text → Option (Json × Text)
  | 0, _ => none
  | depth + 1, text =>
    match skipGap text with
    | '"' :: rest => (readString? rest).map fun (value, rest) => (.string value, rest)
    | '[' :: rest =>
      match skipGap rest with
      | ']' :: rest => some (.array [], rest)
      | rest => (readItems? depth rest).map fun (items, rest) => (.array items, rest)
    | '\x7b' :: rest =>
      match skipGap rest with
      | '\x7d' :: rest => some (.object [], rest)
      | rest => (readMembers? depth rest).map fun (members, rest) => (.object members, rest)
    | 'n' :: rest => (skipWord? "ull".toList rest).map fun rest => (.null, rest)
    | 't' :: rest => (skipWord? "rue".toList rest).map fun rest => (.boolean true, rest)
    | 'f' :: rest => (skipWord? "alse".toList rest).map fun rest => (.boolean false, rest)
    | rest => (readNumber? rest).map fun (spelling, rest) => (.number spelling, rest)

/-- The items of an array that is not empty, with its closing bracket. -/
def readItems? : Nat → Text → Option (List Json × Text)
  | 0, _ => none
  | depth + 1, text => do
    let (item, rest) ← readValue? depth text
    match skipGap rest with
    | ',' :: rest =>
      let (items, rest) ← readItems? depth rest
      some (item :: items, rest)
    | ']' :: rest => some ([item], rest)
    | _ => none

/-- The members of an object that is not empty, with its closing brace. -/
def readMembers? : Nat → Text → Option (List (Text × Json) × Text)
  | 0, _ => none
  | depth + 1, text =>
    match skipGap text with
    | '"' :: rest => do
      let (key, rest) ← readString? rest
      match skipGap rest with
      | ':' :: rest =>
        let (value, rest) ← readValue? depth rest
        match skipGap rest with
        | ',' :: rest =>
          let (members, rest) ← readMembers? depth rest
          some ((key, value) :: members, rest)
        | '\x7d' :: rest => some ([(key, value)], rest)
        | _ => none
      | _ => none
    | _ => none

end

/-- The value that a whole text writes, blanks around it allowed. -/
def parse? (text : Text) : Option Json :=
  match readValue? (text.length + 1) text with
  | some (value, rest) => if skipGap rest = [] then some value else none
  | none => none

end YamlDocs.Json
