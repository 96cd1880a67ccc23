/-
  YamlDocs.Command.Basic
  ────────────────────────────────
  **COMMANDS.**

  There are three: extract the documentation of a YAML file, expand the
  directives of a document, and list the files that a document depends on.
  Each needs loaded settings and gives a text.  The directory of the document
  is the source directory unless another one is given.
-/
import YamlDocs.Document.Expansion
import YamlDocs.Extraction.Format
import YamlDocs.Settings.Layer

namespace YamlDocs

/-! ## §1. What can go wrong. -/

/-- Why a command fails. -/
inductive Failure where
  /-- An override does not have the form of one. -/
  | malformedOverride (text : Text)
  | settings (error : SettingsError)
  | format (error : FormatError)
  | load (error : LoadError)
  | directive (error : DirectiveError)
  /-- The document cannot be read. -/
  | unreadDocument (path : Path) (error : ReadError)
  /-- The output cannot be written. -/
  | unwritten (path : Path) (error : OpenError)
deriving DecidableEq, Repr

namespace Failure

/-- What was tried with a path, in front of the reason why it failed. -/
def tried (action : Text) (path : Path) : Text :=
  "failed to ".toList ++ action ++ " \"".toList ++ path.display ++ "\": ".toList

/-- The wording of a `Failure`. -/
def message : Failure → Text
  | .malformedOverride text =>
    "override '".toList ++ text ++ "' is not of the form KEY=VALUE".toList
  | .settings error => error.message
  | .format error => error.message
  | .load error => error.message
  | .directive error => error.message
  | .unreadDocument path error => tried "read document".toList path ++ error.message
  | .unwritten path error => tried "write".toList path ++ error.message

/-- The messages of the causes of a loading error. -/
def loadCauses : LoadError → List Text
  | .notAFile _ => []
  | .notUtf8 _ => [notUtf8Message]

/-- The messages of the causes that are reported besides the message, outermost first. -/
def causes : Failure → List Text
  | .settings error => error.cause?.toList
  | .load error => loadCauses error
  | .directive ⟨_, _, .unloaded (.notUtf8 location)⟩ =>
    LoadError.message (.notUtf8 location) :: loadCauses (.notUtf8 location)
  | _ => []

/-- The report of a failure: its message and those of its causes, with colons between them. -/
def report (failure : Failure) : Text :=
  Text.join ": ".toList (failure.message :: failure.causes)

end Failure

/-! ## §2. The commands. -/

/-- What can be asked for. -/
inductive Command where
  | extract (path : Path) (format : Format)
  /-- Expand a document, into a file if one is given. -/
  | expand (document : Path) (sourceDirectory : Option Path) (output : Option Path)
  | dependencies (document : Path) (sourceDirectory : Option Path)
deriving DecidableEq, Repr

/-- The documentation of a YAML file in the given format. -/
def extractFile (files : FileView) (settings : Settings) (path : Path) (format : Format) :
    Except Failure Text :=
  match load files settings.markers path with
  | .error error => .error (.load error)
  | .ok buffer => (format.serialize buffer).mapError .format

/-- The environment behind the expansion of the document at a path, and its expanded text. -/
def expandFile (files : FileView) (settings : Settings) (workingDirectory : Path)
    (sourceDirectory : Option Path) (document : Path) : Except Failure (Environment × Text) :=
  match files.readText document with
  | .error error => .error (.unreadDocument document error)
  | .ok source =>
    let environment :=
      settings.environment workingDirectory (sourceDirectory.getD document.directory)
    match environment.expand files document source with
    | (environment, .ok text) => .ok (environment, text)
    | (_, .error error) => .error (.directive error)

/-- Paths, each on a line of its own. -/
def listing (paths : PathSet) : Text := paths.toList.flatMap fun path => path.display ++ ['\n']

/-! ## §3. Running. -/

/-- What a command does in the end. -/
inductive Effect where
  | print (text : Text)
  | write (path : Path) (text : Text)
deriving DecidableEq, Repr

/-- What a command does with the given settings. -/
def Command.effect (files : FileView) (workingDirectory : Path) (settings : Settings) :
    Command → Except Failure Effect
  | .extract path format => (extractFile files settings path format).map .print
  | .expand document sourceDirectory output =>
    (expandFile files settings workingDirectory sourceDirectory document).map fun (_, text) =>
      match output with
      | some path => .write path text
      | none => .print text
  | .dependencies document sourceDirectory =>
    (expandFile files settings workingDirectory sourceDirectory document).map
      fun (environment, _) => .print (listing environment.dependencies)

end YamlDocs
