/-
  YamlDocs.Document.Target
  ────────────────────────────────
  **THE FILES THAT A DOCUMENT NAMES.**

  Which files the expansion of a document may look at is decided by the
  document and the environment alone: they are what the well-formed
  directives outside literal blocks resolve to.
-/
import YamlDocs.Document.Environment
import YamlDocs.Document.Literal

namespace YamlDocs

/-- The lines outside literal blocks, each with its number; the first of the given lines has the
given number. -/
def outsideLines : LiteralBlock → Nat → List Text → List (Nat × Text)
  | _, _, [] => []
  | block, number, line :: rest =>
    if block.contains line then outsideLines block (number + 1) rest
    else (number, line) :: outsideLines (.after line) (number + 1) rest

namespace Environment

/-- The path that a line names, if it is a well-formed directive. -/
def target? (env : Environment) (document : Path) (number : Nat) (line : Text) : Option Path :=
  match Directive.parse document number line with
  | .ok (some directive) => some (env.resolve directive.argument)
  | _ => none

/-- The paths that a document names, in the order of its lines. -/
def targets (env : Environment) (document : Path) (source : Text) : List Path :=
  (outsideLines {} 1 (Text.lines source)).filterMap fun (number, line) =>
    env.target? document number line

end Environment

end YamlDocs
