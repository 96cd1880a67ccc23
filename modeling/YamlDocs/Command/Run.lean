/-
  YamlDocs.Command.Run
  ────────────────────────────────
  **A RUN OF THE PROGRAM.**

  A run takes arguments and files to an outcome: what is printed, the exit
  code, and at most one file to be written.  Everything is worked out before
  anything is written or printed, so a run that fails leaves no trace.
-/
import YamlDocs.Command.Help
import YamlDocs.Files.Tree

namespace YamlDocs

/-! ## §1. Settings of a run. -/

/-- The settings file of the working directory, which need not be there. -/
def localSettings : SettingsFile := { path := .ofText "autoyaml.toml".toList, required := false }

/-- The setting that an override of the form `KEY=VALUE` gives; white space around the key is left
out. -/
def readOverride (text : Text) : Except Failure (SettingKey × SettingValue) :=
  match splitFirst? '=' text with
  | none => .error (.malformedOverride text)
  | some (key, value) =>
    (Sources.override (Text.trim key) (.text value)).mapError .settings

/-- The sources of the settings of a run; the first override with a fault is reported. -/
def sourcesOf (config : Option Path) (overrides : List Text) : Except Failure Sources :=
  (overrides.mapM readOverride).map fun overrides =>
    { files := localSettings :: (config.map fun path => ⟨path, true⟩).toList, overrides }

/-- The settings of a run. -/
def loadSettings (files : FileView) (workingDirectory : Path) (config : Option Path)
    (overrides : List Text) : Except Failure Settings :=
  match sourcesOf config overrides with
  | .error failure => .error failure
  | .ok sources => (sources.load files workingDirectory).mapError .settings

/-! ## §2. The effect of a request. -/

/-- The name of the program and its version. -/
def versionText : Text := "autoyaml 0.1.0\n".toList

/-- What a request does in the end. -/
def Request.effect (files : FileView) (workingDirectory : Path) :
    Request → Except Failure Effect
  | .version => .ok (.print versionText)
  | .help subject detailed => .ok (.print (helpText subject detailed))
  | .run config overrides command =>
    match loadSettings files workingDirectory config overrides with
    | .error failure => .error failure
    | .ok settings => command.effect files workingDirectory settings

/-! ## §3. Outcomes on a disk. -/

/-- How a run ends. -/
inductive Outcome where
  /-- It prints a text. -/
  | success (output : Text)
  | failure (reason : Failure)
  /-- The arguments are not used as they should be. -/
  | misuse
deriving DecidableEq, Repr

namespace Outcome

/-- The exit code of an outcome. -/
def exitCode : Outcome → Nat
  | .success _ => 0
  | .failure _ => 1
  | .misuse => 2

/-- What an outcome prints. -/
def output : Outcome → Text
  | .success output => output
  | _ => []

/-- What an outcome reports besides. -/
def report : Outcome → Text
  | .failure reason => "Error: ".toList ++ reason.report ++ ['\n']
  | .misuse => Subject.usage .program ++ ['\n']
  | .success _ => []

end Outcome

namespace Disk

/-- The disk after an effect, and how the run ends by it. Standard output is taken to accept every
text; a file may refuse it. -/
def apply (disk : Disk) : Effect → Disk × Outcome
  | .print text => (disk, .success text)
  | .write path text =>
    match disk.writeFile path (Utf8.encode text) with
    | .ok disk => (disk, .success [])
    | .error error => (disk, .failure (.unwritten path error))

/-- The disk after a run with the given arguments, and how the run ends. -/
def run (disk : Disk) (arguments : List Bytes) : Disk × Outcome :=
  match Request.ofArguments? arguments with
  | none => (disk, .misuse)
  | some request =>
    match request.effect disk.view disk.workingPath with
    | .ok effect => disk.apply effect
    | .error failure => (disk, .failure failure)

end Disk

end YamlDocs
