/-
  YamlDocs.Text.Lines
  ────────────────────────────────
  **CUTTING A TEXT INTO LINES.**

  Ten characters end a line; a carriage return directly followed by a line
  feed is one line end.  A line end at the very end of the text opens no
  further line, so the empty text has no line and a lone line feed has one
  empty line.
-/
import YamlDocs.Text.Basic

namespace YamlDocs.Text

/-! ## §1. Line breaks. -/

/-- The characters that end a line. -/
def lineBreaks : List Char :=
  ['\n', '\r', '\x0b', '\x0c', '\x1c', '\x1d', '\x1e', '\u0085', '\u2028', '\u2029']

/-- Whether a character ends a line. -/
def isLineBreak (c : Char) : Bool := lineBreaks.contains c

/-! ## §2. The lines of a text. -/

/-- Puts a character in front of the first line, which is opened if there is none. -/
def consToFirstLine (c : Char) : List Text → List Text
  | [] => [[c]]
  | line :: rest => (c :: line) :: rest

/-- The lines of a text, without the characters that end them. -/
def lines : Text → List Text
  | [] => []
  | '\r' :: '\n' :: rest => [] :: lines rest
  | c :: rest => if isLineBreak c then [] :: lines rest else consToFirstLine c (lines rest)

/-- Every line followed by a line feed. -/
def unlines (texts : List Text) : Text := texts.flatMap (· ++ ['\n'])

/-! ## §3. The end of a text. -/

/-- Whether the last character is a line feed or a carriage return. -/
def endsWithLineEnd (text : Text) : Bool :=
  match text.getLast? with
  | some c => c == '\n' || c == '\r'
  | none => false

end YamlDocs.Text
