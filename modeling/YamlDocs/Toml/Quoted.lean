/-
  YamlDocs.Toml.Quoted
  ────────────────────────────────
  **QUOTED TEXT.**

  Four kinds of string: basic ones in double quotes with escapes, literal
  ones in single quotes without, each on one line or between triple quotes on
  several.  A line end directly behind opening triple quotes is left out, and
  every line end inside is a line feed.  Up to two quotes may stand before the
  closing triple.
-/
import YamlDocs.Text.Basic

namespace YamlDocs.Toml

/-! ## §1. Characters. -/

/-- A space or a tab. -/
def isBlank (c : Char) : Bool := c == ' ' || c == '\t'

/-- The characters that may stand for themselves: tabs, printable ASCII and all beyond ASCII. -/
def isPlain (c : Char) : Bool := c == '\t' || (0x20 ≤ c.toNat && c.toNat ≤ 0x7E) || 0x80 ≤ c.toNat

/-- What is left behind a line end in front: a line feed or a carriage return with one. -/
def skipLineEnd? : Text → Option Text
  | '\n' :: rest => some rest
  | '\r' :: '\n' :: rest => some rest
  | _ => none

/-- What is left behind blanks and line ends. -/
def skipBlankLines : Text → Text
  | [] => []
  | '\n' :: rest => skipBlankLines rest
  | '\r' :: '\n' :: rest => skipBlankLines rest
  | c :: rest => if isBlank c then skipBlankLines rest else c :: rest

/-! ## §2. Escapes. -/

/-- The character with the given number, if it is one. -/
def charOf? (n : Nat) : Option Char := if n.isValidChar then some (.ofNat n) else none

/-- The character that hexadecimal digits write. -/
def readHex? (count : Nat) (text : Text) : Option (Char × Text) := do
  let digits ← (text.take count).mapM Text.hexDigit?
  if digits.length = count then
    let c ← charOf? (digits.foldl (fun value digit => 16 * value + digit) 0)
    some (c, text.drop count)
  else none

/-- The character that an escape stands for, behind its backslash. -/
def readEscape? : Text → Option (Char × Text)
  | 'b' :: rest => some ('\x08', rest)
  | 't' :: rest => some ('\t', rest)
  | 'n' :: rest => some ('\n', rest)
  | 'f' :: rest => some ('\x0c', rest)
  | 'r' :: rest => some ('\r', rest)
  | '"' :: rest => some ('"', rest)
  | '\\' :: rest => some ('\\', rest)
  | 'u' :: rest => readHex? 4 rest
  | 'U' :: rest => readHex? 8 rest
  | _ => none

/-- What is left behind a line-ending backslash, blanks and line ends; none if a line end does not
follow the backslash. -/
def skipContinuation? (text : Text) : Option Text :=
  (skipLineEnd? (text.dropWhile isBlank)).map skipBlankLines

/-! ## §3. One line. -/

/-- The rest of a basic string behind its opening quote; the number bounds its length. -/
def readBasic? : Nat → Text → Option (Text × Text)
  | 0, _ => none
  | _ + 1, [] => none
  | _ + 1, '"' :: rest => some ([], rest)
  | fuel + 1, '\\' :: rest => do
    let (c, rest) ← readEscape? rest
    let (value, rest) ← readBasic? fuel rest
    some (c :: value, rest)
  | fuel + 1, c :: rest =>
    if isPlain c then (readBasic? fuel rest).map fun (value, rest) => (c :: value, rest)
    else none

/-- The rest of a literal string behind its opening quote. -/
def readLiteral? : Text → Option (Text × Text)
  | [] => none
  | '\'' :: rest => some ([], rest)
  | c :: rest =>
    if isPlain c then (readLiteral? rest).map fun (value, rest) => (c :: value, rest)
    else none

/-! ## §4. Several lines. -/

/-- How a run of quotes ends or continues a string on several lines: three to five of them end it,
and those beyond three belong to it; one or two belong to it; more are a fault. -/
def closing? (quote : Char) (count : Nat) : Option (Bool × Text) :=
  if count ≤ 2 then some (false, List.replicate count quote)
  else if count ≤ 5 then some (true, List.replicate (count - 3) quote)
  else none

/-- The rest of a string on several lines; `escapes` tells basic from literal ones, and the number
bounds the length. -/
def readLines? (quote : Char) (escapes : Bool) : Nat → Text → Option (Text × Text)
  | 0, _ => none
  | _ + 1, [] => none
  | fuel + 1, c :: rest =>
    if c = quote then do
      let (run, rest) := (c :: rest).span (· = quote)
      let (closed, quotes) ← closing? quote run.length
      if closed then some (quotes, rest)
      else (readLines? quote escapes fuel rest).map fun (value, rest) => (quotes ++ value, rest)
    else
      match skipLineEnd? (c :: rest) with
      | some rest =>
        (readLines? quote escapes fuel rest).map fun (value, rest) => ('\n' :: value, rest)
      | none =>
        if escapes ∧ c = '\\' then
          match skipContinuation? rest with
          | some rest => readLines? quote escapes fuel rest
          | none => do
            let (c, rest) ← readEscape? rest
            (readLines? quote escapes fuel rest).map fun (value, rest) => (c :: value, rest)
        else if isPlain c then
          (readLines? quote escapes fuel rest).map fun (value, rest) => (c :: value, rest)
        else none

/-- The rest of a string on several lines behind its opening quotes. -/
def readBlock? (quote : Char) (escapes : Bool) (text : Text) : Option (Text × Text) :=
  let body := (skipLineEnd? text).getD text
  readLines? quote escapes (body.length + 1) body

/-! ## §5. Strings. -/

/-- A string of any kind. -/
def readString? : Text → Option (Text × Text)
  | '"' :: '"' :: '"' :: rest => readBlock? '"' true rest
  | '"' :: rest => readBasic? (rest.length + 1) rest
  | '\'' :: '\'' :: '\'' :: rest => readBlock? '\'' false rest
  | '\'' :: rest => readLiteral? rest
  | _ => none

end YamlDocs.Toml
