/-
  YamlDocs.Document.Expansion
  ────────────────────────────────
  **EXPANDING A DOCUMENT.**

  The lines of a document are taken in order.  Outside literal blocks a
  directive line gives way to the documentation of its file; all other lines
  stay.  The first directive that fails ends the expansion; what was recorded
  before it stays recorded.
-/
import YamlDocs.Document.Environment
import YamlDocs.Document.Literal

namespace YamlDocs.Environment

/-! ## §1. Lines. -/

/-- The result with more lines in front. -/
def prepend (lines : List Text) :
    Environment × Except DirectiveError (List Text) →
      Environment × Except DirectiveError (List Text)
  | (env, .ok rest) => (env, .ok (lines ++ rest))
  | (env, .error error) => (env, .error error)

/-- The lines that take the place of the given ones, of which the first has the given number. -/
def expandLines (files : FileView) (document : Path) :
    Environment → LiteralBlock → Nat → List Text →
      Environment × Except DirectiveError (List Text)
  | env, _, _, [] => (env, .ok [])
  | env, block, number, line :: rest =>
    -- Nothing in a literal block is looked at.
    if block.contains line then
      prepend [line] (expandLines files document env block (number + 1) rest)
    else
      match Directive.parse document number line with
      | .error error => (env, .error error)
      | .ok none =>
        prepend [line] (expandLines files document env (.after line) (number + 1) rest)
      | .ok (some directive) =>
        match env.run files document directive with
        | (env, .error error) => (env, .error error)
        | (env, .ok buffer) =>
          prepend (directive.render buffer)
            (expandLines files document env (.after line) (number + 1) rest)

/-! ## §2. Documents. -/

/-- Lines as one text: line feeds between them, and one behind them if the text that they come
from ends its last line. -/
def assemble (source : Text) (lines : List Text) : Text :=
  Text.join ['\n'] lines ++ (if Text.endsWithLineEnd source then ['\n'] else [])

/-- The text of a document with its directives expanded. -/
def expand (files : FileView) (env : Environment) (document : Path) (source : Text) :
    Environment × Except DirectiveError Text :=
  match expandLines files document env {} 1 (Text.lines source) with
  | (env, .ok lines) => (env, .ok (assemble source lines))
  | (env, .error error) => (env, .error error)

end YamlDocs.Environment
