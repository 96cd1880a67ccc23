/-
  YamlDocs.Command.Consulted
  ────────────────────────────────
  **WHICH FILES A RUN CONSULTS.**

  The settings files and the file of the command follow from the arguments.
  Which further files are consulted follows from these: they are what the
  directives of the document name.  So two looks at the file system are
  enough to know all that the effect of a request depends on.
-/
import YamlDocs.Command.Run
import YamlDocs.Document.Target

namespace YamlDocs

/-! ## §1. Consulted paths. -/

/-- The paths at which settings files are looked up. -/
def Sources.candidates (workingDirectory : Path) (sources : Sources) : List Path :=
  sources.files.flatMap fun file => SettingsFile.candidates workingDirectory file.path

/-- The paths that the expansion of a document consults, as far as the view shows them. -/
def documentTargets (files : FileView) (settings : Settings) (workingDirectory : Path)
    (sourceDirectory : Option Path) (document : Path) : List Path :=
  match files.readText document with
  | .error _ => []
  | .ok source =>
    let environment :=
      settings.environment workingDirectory (sourceDirectory.getD document.directory)
    environment.targets document source

/-- The paths that a command consults with the given settings, as far as the view shows them. -/
def Command.consulted (files : FileView) (workingDirectory : Path) (settings : Settings) :
    Command → List Path
  | .extract path _ => [path]
  | .expand document sourceDirectory _ =>
    document :: documentTargets files settings workingDirectory sourceDirectory document
  | .dependencies document sourceDirectory =>
    document :: documentTargets files settings workingDirectory sourceDirectory document

/-- The paths that a request consults, as far as the view shows them. -/
def Request.consulted (files : FileView) (workingDirectory : Path) : Request → List Path
  | .version => []
  | .help _ _ => []
  | .run config overrides command =>
    match sourcesOf config overrides with
    | .error _ => []
    | .ok sources =>
      let settings := (sources.load files workingDirectory).toOption.getD .default
      sources.candidates workingDirectory ++ command.consulted files workingDirectory settings

/-! ## §2. Snapshots. -/

/-- What opening some paths gave. -/
abbrev Snapshot := List (Path × Except OpenError Bytes)

/-- The view in which only the paths of a snapshot exist. -/
def Snapshot.view (snapshot : Snapshot) : FileView :=
  fun path => (snapshot.lookup path).getD (.error .missing)

end YamlDocs
