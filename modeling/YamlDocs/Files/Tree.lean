/-
  YamlDocs.Files.Tree
  ────────────────────────────────
  **DIRECTORY TREES.**

  A tree without symbolic links: a node is a file or a directory with named
  entries.  A location is the list of names from the innermost outwards, so
  the parent of a location is its tail and the parent of the root is the
  root.  Walking a path takes one component at a time; each of them is looked
  up in a directory.  A `Disk` is a tree with a working directory; it gives
  the `FileView` in which relative paths start there.
-/
import YamlDocs.Bindings
import YamlDocs.Files.View
import YamlDocs.Path.Normal

namespace YamlDocs

/-! ## §1. Nodes. -/

/-- A file with its bytes or a directory with its entries. -/
inductive Node where
  | file (content : Bytes)
  | directory (entries : List (Bytes × Node))
deriving Inhabited

/-- Where a node is: the names that lead to it, innermost first. -/
abbrev Location := List Bytes

namespace Node

/-- The entry of a directory with the given name. -/
def child? : Node → Bytes → Option Node
  | .file _, _ => none
  | .directory entries, name => entries.lookup name

/-- The node that names, outermost first, lead to. -/
def descend? : Node → List Bytes → Option Node
  | node, [] => some node
  | node, name :: rest =>
    match node.child? name with
    | some child => child.descend? rest
    | none => none

/-- The node at a location. -/
def at? (tree : Node) (location : Location) : Option Node := tree.descend? location.reverse

/-- The tree with `new` at the place that names, outermost first, lead to; missing directories
on the way are made. -/
def put : Node → List Bytes → Node → Node
  | _, [], new => new
  | .file _, name :: rest, new => .directory [(name, put (.directory []) rest new)]
  | .directory entries, name :: rest, new =>
    .directory (Bindings.set name (put ((entries.lookup name).getD (.directory [])) rest new) entries)

/-- The tree without the entry that names, outermost first, lead to. -/
def remove : Node → List Bytes → Node
  | .directory entries, [name] => .directory (entries.filter (·.1 ≠ name))
  | .directory entries, name :: rest =>
    match entries.lookup name with
    | some child => .directory (Bindings.set name (child.remove rest) entries)
    | none => .directory entries
  | node, _ => node

/-! ## §2. Walking. -/

/-- The greatest length of a name. -/
def maxNameLength : Nat := 255

/-- One component further: every component is looked up in a directory. -/
def step (tree : Node) (location : Location) (component : Component) :
    Except OpenError Location :=
  match tree.at? location with
  | some (.directory entries) =>
    match component with
    | .root => .ok []
    | .here => .ok location
    | .parent => .ok location.tail
    | .name name =>
      if name.length > maxNameLength then .error .tooLong
      else if (entries.lookup name).isSome then .ok (name :: location)
      else .error .missing
  | some (.file _) => .error .notDirectory
  | none => .error .missing

/-- The location to which components lead from `start`. -/
def walk (tree : Node) (start : Location) : List Component → Except OpenError Location
  | [] => .ok start
  | component :: rest =>
    match tree.step start component with
    | .ok next => tree.walk next rest
    | .error error => .error error

end Node

/-! ## §3. Disks. -/

/-- A tree and the location at which relative paths start. -/
structure Disk where
  tree : Node
  workingDirectory : Location
deriving Inhabited

namespace Disk

/-- The absolute path of the working directory. -/
def workingPath (disk : Disk) : Path :=
  Path.ofComponents (.root :: disk.workingDirectory.reverse.map .name)

/-- The greatest length of a path. -/
def maxPathLength : Nat := 4095

/-- Whether a path says that it names a directory: it ends in a slash or in the segment `.`. -/
def namesDirectory (path : Path) : Bool :=
  match path.segments.getLast? with
  | some segment => (segment = [] ∨ segment = [Path.dot])
  | none => false

/-- Refuses paths that no file system call accepts. -/
def checkSpelling (path : Path) : Except OpenError Unit :=
  if path.bytes.contains 0 then .error .holdsNul
  else if path.bytes = [] then .error .missing
  else if path.bytes.length > maxPathLength then .error .tooLong
  else .ok ()

/-- What opening a path for reading gives. -/
def openFile (disk : Disk) (path : Path) : Except OpenError Bytes := do
  checkSpelling path
  let location ← disk.tree.walk disk.workingDirectory path.components
  match disk.tree.at? location with
  | some (.file content) => if namesDirectory path then .error .notDirectory else .ok content
  | some (.directory _) => .error .isDirectory
  | none => .error .missing

/-- The view that a disk gives. -/
def view (disk : Disk) : FileView := disk.openFile

/-- Where a file would be written: the directory that gets the entry, and its name. -/
def target (disk : Disk) (path : Path) : Except OpenError (Location × Bytes) := do
  checkSpelling path
  -- The last piece that is more than a slash tells what is asked for.
  match path.components.getLast?, (path.segments.filter (· ≠ [])).getLast? with
  | some (.name name), some last =>
    -- A `.` asks for a directory, which is no place for a file.
    if last = [Path.dot] then
      let location ← disk.tree.walk disk.workingDirectory path.components
      match disk.tree.at? location with
      | some (.file _) => .error .notDirectory
      | _ => .error .isDirectory
    else
      let parent ← disk.tree.walk disk.workingDirectory path.components.dropLast
      match disk.tree.at? parent with
      | some (.directory entries) =>
        -- So does a slash at the end.
        if path.bytes.getLast? = some Path.slash then .error .isDirectory
        else if name.length > Node.maxNameLength then .error .tooLong
        else
          match entries.lookup name with
          | some (.directory _) => .error .isDirectory
          | _ => .ok (parent, name)
      | some (.file _) => .error .notDirectory
      | none => .error .missing
  -- The path ends in the root or in `..`: if it leads anywhere, then to a directory.
  | _, _ =>
    let _ ← disk.tree.walk disk.workingDirectory path.components
    .error .isDirectory

/-- The disk after a file is written: it is made or replaced as a whole, or nothing changes. -/
def writeFile (disk : Disk) (path : Path) (content : Bytes) : Except OpenError Disk := do
  let (parent, name) ← disk.target path
  .ok { disk with tree := disk.tree.put (name :: parent).reverse (.file content) }

/-! ## §4. Setting up. -/

/-- The disk with nothing but its working directory, given by names, outermost first. -/
def empty (names : List Bytes) : Disk :=
  { tree := Node.put (.directory []) names (.directory []), workingDirectory := names.reverse }

/-- The tree and the location after one more component; a directory that is missing is made. -/
def enter : Node × Location → Component → Node × Location
  | (tree, _), .root => (tree, [])
  | (tree, location), .here => (tree, location)
  | (tree, location), .parent => (tree, location.tail)
  | (tree, location), .name name =>
    match tree.at? (name :: location) with
    | some (.directory _) => (tree, name :: location)
    | _ => (tree.put (name :: location).reverse (.directory []), name :: location)

/-- The disk with every directory on the way that components name, and where the way ends. -/
def enterAll (disk : Disk) (components : List Component) : Disk × Location :=
  let (tree, location) := components.foldl enter (disk.tree, disk.workingDirectory)
  ({ disk with tree }, location)

/-- The disk with a directory at a path. -/
def makeDirectory (disk : Disk) (path : Path) : Disk := (disk.enterAll path.components).1

/-- The disk with a file at a path, whatever stood there before; missing directories are made. -/
def makeFile (disk : Disk) (path : Path) (content : Bytes) : Disk :=
  match path.components.getLast? with
  | some (.name name) =>
    let (disk, location) := disk.enterAll path.components.dropLast
    { disk with tree := disk.tree.put (name :: location).reverse (.file content) }
  | _ => disk.makeDirectory path

/-- The disk without the file at a path. -/
def deleteFile (disk : Disk) (path : Path) : Disk :=
  match disk.openFile path, disk.tree.walk disk.workingDirectory path.components with
  | .ok _, .ok location => { disk with tree := disk.tree.remove location.reverse }
  | _, _ => disk

end Disk

end YamlDocs
