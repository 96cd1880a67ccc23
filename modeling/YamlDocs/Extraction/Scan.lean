/-
  YamlDocs.Extraction.Scan
  ────────────────────────────────
  **THE SCAN.**

  One pass over the lines with three states: outside any block, inside a
  block, inside the parameter part of a block.  Every line begins with the
  first marker that fits and is treated by the first rule that applies:

      delimiter             one block start; a block is open, and an open
                            parameter part stays open
      parameter, in block   a separator and the line without its first two
                            characters; the parameter part is open
      comment, in block     a separator and the line without its marker;
                            the state stays
      any other line        a separator; the block is closed

  Behind a delimiter or comment marker at most one space is left out.  A
  parameter line loses two characters whatever its marker is.
-/
import YamlDocs.Extraction.Entry
import YamlDocs.Extraction.Marker
import YamlDocs.Text.Lines

namespace YamlDocs

/-! ## §1. States and pieces. -/

/-- Where the scan is relative to documentation blocks. -/
inductive ScanState where
  | outside
  | inBlock
  /-- Inside the parameter part of a block. -/
  | inParameter
deriving DecidableEq, Repr

/-- What a line contributes, without its place. -/
structure Piece where
  kind : LineKind
  text : Text
deriving DecidableEq, Repr

namespace Piece

/-- The empty line that sets pieces apart. -/
def separator : Piece := ⟨.separator, []⟩

/-- The entry of a piece that comes from the given line of a file. -/
def entry (source : Path) (line : Nat) (piece : Piece) : Entry :=
  ⟨piece.text, source, line, piece.kind⟩

end Piece

namespace ScanState

/-- The state behind a delimiter line: an open parameter part stays open. -/
def enterBlock : ScanState → ScanState
  | .inParameter => .inParameter
  | _ => .inBlock

/-- The kind of a parameter line: the first one of a block opens its parameter part. -/
def parameterKind : ScanState → LineKind
  | .inParameter => .parameterContinuation
  | _ => .parameter

end ScanState

/-! ## §2. One line. -/

/-- How many characters a parameter line loses. -/
def parameterWidth : Nat := 2

/-- The pieces of one line and the state behind it. -/
def scanLine (markers : MarkerSet) (state : ScanState) (line : Text) : List Piece × ScanState :=
  match markers.docDelimiter.isPrefixOf? line with
  | some rest => ([⟨.blockStart, Text.dropOneSpace rest⟩], state.enterBlock)
  | none =>
    -- Outside a block nothing but a delimiter counts.
    if state = .outside then ([.separator], .outside)
    else if markers.docParameter.isPrefixOf line then
      ([.separator, ⟨state.parameterKind, line.drop parameterWidth⟩], .inParameter)
    else
      match markers.comment.isPrefixOf? line with
      | some rest => ([.separator, ⟨.comment, Text.dropOneSpace rest⟩], state)
      | none => ([.separator], .outside)

/-! ## §3. All lines. -/

/-- The entries of lines that begin at the given number, from the given state. -/
def scanLines (markers : MarkerSet) (source : Path) : ScanState → Nat → List Text → Buffer
  | _, _, [] => []
  | state, number, line :: rest =>
    let (pieces, next) := scanLine markers state line
    pieces.map (Piece.entry source number) ++ scanLines markers source next (number + 1) rest

/-- The documentation of a YAML text, each entry with its line in `source`. -/
def extract (markers : MarkerSet) (source : Path) (text : Text) : Buffer :=
  scanLines markers source .outside 1 (Text.lines text)

end YamlDocs
