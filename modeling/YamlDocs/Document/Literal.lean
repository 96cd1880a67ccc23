/-
  YamlDocs.Document.Literal
  ────────────────────────────────
  **LITERAL BLOCKS.**

  A line opens a literal block if it begins one of the directives whose body
  is literal text, or if it is no explicit markup and ends in `::`.  The
  block holds the lines behind it as long as they are blank or indented
  deeper than the opening line.  What stands in a block neither opens another
  one nor counts as a directive.
-/
import YamlDocs.Document.Directive

namespace YamlDocs

/-- The indentation of the line that opened the current literal block, if one is open. -/
structure LiteralBlock where
  openerIndent : Option Nat := none
deriving DecidableEq, Repr

namespace LiteralBlock

/-! ## §1. Openers. -/

/-- The directives whose body is literal text. -/
def literalDirectives : List Text :=
  ["code".toList, "code-block".toList, "sourcecode".toList, "parsed-literal".toList]

/-- Whether a line opens a literal block. -/
def opens (line : Text) : Bool :=
  match Directive.name? line with
  | some name => literalDirectives.contains name
  | none =>
    let trimmed := Text.trim line
    !Directive.opener.isPrefixOf trimmed && [':', ':'].isSuffixOf trimmed

/-! ## §2. Members. -/

/-- Whether a line may stand in a literal block whose opening line is indented by `opener`. -/
def belongs (opener : Nat) (line : Text) : Bool :=
  Text.isBlankLine line || opener < Text.indentWidth line

/-- Whether a line is part of the current literal block. -/
def contains (block : LiteralBlock) (line : Text) : Bool :=
  match block.openerIndent with
  | some opener => belongs opener line
  | none => false

/-- The block behind a line that is not part of the current one. -/
def after (line : Text) : LiteralBlock :=
  ⟨if opens line then some (Text.indentWidth line) else none⟩

/-- The block behind a line. -/
def next (block : LiteralBlock) (line : Text) : LiteralBlock :=
  if block.contains line then block else after line

end LiteralBlock

end YamlDocs
