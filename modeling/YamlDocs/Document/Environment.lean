/-
  YamlDocs.Document.Environment
  ────────────────────────────────
  **THE STATE OF A BUILD.**

  Directives share the directory of the document sources, the YAML root
  relative to it, the markers and the set of files that the build depends
  on.  An argument is resolved as text: the root, a slash and the argument
  are joined to the source directory, the working directory makes the path
  absolute, and the result is normalized.
-/
import YamlDocs.Document.Directive
import YamlDocs.Path.Normal
import YamlDocs.Path.Order

namespace YamlDocs

/-- What the directives of a build share. -/
structure Environment where
  /-- Where relative paths start; absolute. -/
  workingDirectory : Path
  /-- The directory of the document sources. -/
  sourceDirectory : Path
  /-- The YAML root, relative to the source directory. -/
  root : Text
  markers : MarkerSet
  /-- The files that the build depends on. -/
  dependencies : PathSet := {}
deriving Inhabited

namespace Environment

/-! ## §1. Resolving. -/

/-- The path that an argument spells, as it is written. -/
def written (env : Environment) (argument : Text) : Path :=
  env.sourceDirectory.join (.ofText (env.root ++ '/' :: argument))

/-- The absolute path of the YAML file that an argument names. -/
def resolve (env : Environment) (argument : Text) : Path :=
  (env.workingDirectory.join (env.written argument)).normalize

/-! ## §2. Dependencies. -/

/-- The environment with one more dependency. -/
def record (env : Environment) (path : Path) : Environment :=
  { env with dependencies := env.dependencies.insert path }

/-! ## §3. Running a directive. -/

/-- The documentation of the file that a directive names. Its path becomes a dependency if it can
be loaded. -/
def run (files : FileView) (env : Environment) (document : Path) (directive : Directive) :
    Environment × Except DirectiveError Buffer :=
  let location := env.resolve directive.argument
  match load files env.markers location with
  | .error error => (env, .error ⟨document, directive.line, .unloaded error⟩)
  | .ok buffer => (env.record location, .ok buffer)

end Environment

end YamlDocs
