/-
  YamlDocs.Main
  ────────────────────────────────
  **THE PROGRAM.**

  Reads the files that a request consults, works out its effect and carries
  it out.  Nothing is decided here.
-/
import YamlDocs.Command.Consulted

namespace YamlDocs.Program

/-- The number of the error for a directory where a file is expected; some calls give it with the
sign changed. -/
def directoryCode : UInt32 := 21

/-- The reason that an error of the operating system gives for a path that cannot be opened. -/
def openError : IO.Error → OpenError
  | .inappropriateType _ code _ =>
    if code = directoryCode ∨ code = 0 - directoryCode then .isDirectory else .notDirectory
  | .permissionDenied .. => .denied
  | .invalidArgument .. => .tooLong
  | _ => .missing

/-- What opening a path gives. -/
def openPath (path : Path) : IO (Except OpenError Bytes) := do
  match path.toText? with
  | none => return .error .missing
  | some name =>
    try
      return .ok (← IO.FS.readBinFile (String.ofList name)).toList
    catch error => return .error (openError error)

/-- What opening each of some paths gives. -/
def look (paths : List Path) : IO Snapshot :=
  paths.mapM fun path => return (path, ← openPath path)

/-- Prints the outcome of a run. -/
def conclude (outcome : Outcome) : IO UInt32 := do
  IO.print (String.ofList outcome.output)
  IO.eprint (String.ofList outcome.report)
  return outcome.exitCode.toUInt32

/-- Carries out an effect. -/
def carryOut : Effect → IO Outcome
  | .print text => return .success text
  | .write path text =>
    match path.toText? with
    | none => return .failure (.unwritten path .missing)
    | some name =>
      try
        IO.FS.writeFile (String.ofList name) (String.ofList text)
        return .success []
      catch error => return .failure (.unwritten path (openError error))

/-- Runs a request. -/
def run (request : Request) : IO Outcome := do
  let workingDirectory := Path.ofText (← IO.currentDir).toString.toList
  let first ← look (request.consulted (Snapshot.view []) workingDirectory)
  let second ← look (request.consulted first.view workingDirectory)
  match request.effect second.view workingDirectory with
  | .ok effect => carryOut effect
  | .error failure => return .failure failure

end YamlDocs.Program

/-- The program: arguments in, exit code out. -/
def main (arguments : List String) : IO UInt32 := do
  let words : List YamlDocs.Text := arguments.map String.toList
  match YamlDocs.Request.ofArguments? words with
  | some request => YamlDocs.Program.conclude (← YamlDocs.Program.run request)
  | none => YamlDocs.Program.conclude .misuse
