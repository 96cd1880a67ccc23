/-
  YamlDocs.Document.Session
  ────────────────────────────────
  **SESSIONS.**

  What can be done with a build environment, as data.  An operation reads
  files through a view and answers with a reply and the environment behind
  it.  A session runs steps on a disk: operations, and changes that others
  make to the files between them.
-/
import YamlDocs.Document.Expansion
import YamlDocs.Files.Tree

namespace YamlDocs

/-- What can be asked of a build environment. -/
inductive Operation where
  | expand (document : Path) (source : Text)
  | resolve (argument : Text)
  /-- Parse a line of a document and run the directive on it. -/
  | directive (document : Path) (line : Nat) (text : Text)
  | load (path : Path)
  | extract (source : Text) (path : Path)
  | record (path : Path)
deriving Repr

/-- The answer to an operation. -/
inductive Reply where
  | text (text : Text)
  | path (path : Path)
  | noDirective
  | buffer (buffer : Buffer)
  | recorded
  | directiveError (error : DirectiveError)
  | loadError (error : LoadError)
deriving Repr

/-- A step of a session. -/
inductive SessionStep where
  | perform (operation : Operation)
  /-- Someone writes a file. -/
  | write (path : Path) (content : Bytes)
  /-- Someone makes a directory. -/
  | makeDirectory (path : Path)
  /-- Someone deletes a file. -/
  | delete (path : Path)

namespace Environment

/-! ## §1. Operations. -/

/-- The environment behind an operation and its answer. -/
def perform (files : FileView) (env : Environment) : Operation → Environment × Reply
  | .expand document source =>
    match env.expand files document source with
    | (env, .ok text) => (env, .text text)
    | (env, .error error) => (env, .directiveError error)
  | .resolve argument => (env, .path (env.resolve argument))
  | .directive document line text =>
    match Directive.parse document line text with
    | .error error => (env, .directiveError error)
    | .ok none => (env, .noDirective)
    | .ok (some directive) =>
      match env.run files document directive with
      | (env, .ok buffer) => (env, .buffer buffer)
      | (env, .error error) => (env, .directiveError error)
  | .load path =>
    match YamlDocs.load files env.markers path with
    | .ok buffer => (env, .buffer buffer)
    | .error error => (env, .loadError error)
  | .extract source path => (env, .buffer (YamlDocs.extract env.markers path source))
  | .record path => (env.record path, .recorded)

/-! ## §2. Sessions. -/

/-- The replies to the steps of a session, each with the dependencies recorded by then. A change
of the files has no reply. -/
def runSession (disk : Disk) (env : Environment) :
    List SessionStep → List (Option Reply × PathSet)
  | [] => []
  | .perform operation :: rest =>
    let (env, reply) := env.perform disk.view operation
    (some reply, env.dependencies) :: runSession disk env rest
  | .write path content :: rest =>
    (none, env.dependencies) :: runSession (disk.makeFile path content) env rest
  | .makeDirectory path :: rest =>
    (none, env.dependencies) :: runSession (disk.makeDirectory path) env rest
  | .delete path :: rest =>
    (none, env.dependencies) :: runSession (disk.deleteFile path) env rest

end Environment

end YamlDocs
