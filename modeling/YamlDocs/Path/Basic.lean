/-
  YamlDocs.Path.Basic
  ────────────────────────────────
  **PATHS AND THEIR COMPONENTS.**

  A path is a byte string; slashes cut it into segments.  What a path means
  is the list of its components: the root, a `.` in front, `..` and names.
  Repeated slashes, a slash at the end and every other `.` carry no meaning
  and give no component.  Two spellings with the same components are the
  same path for every purpose but printing.
-/
import YamlDocs.Text.Utf8

namespace YamlDocs

/-- A path as it is spelled. -/
structure Path where
  bytes : Bytes
deriving DecidableEq, Repr, Inhabited

/-- One step of a path. -/
inductive Component where
  /-- The root of the file system; only ever the first step. -/
  | root
  /-- A `.` at the front of a relative path. -/
  | here
  /-- A `..`, the parent directory. -/
  | parent
  /-- The entry of a directory with this name. -/
  | name (bytes : Bytes)
deriving DecidableEq, Repr

namespace Path

/-! ## §1. Spelling. -/

/-- The separator of segments. -/
def slash : UInt8 := 0x2F

/-- The byte of which `.` and `..` are made. -/
def dot : UInt8 := 0x2E

/-- The path that a text spells. -/
def ofText (text : Text) : Path := ⟨Utf8.encode text⟩

/-- How a path is printed: as it is, with U+FFFD for every part that is not UTF-8. -/
def display (path : Path) : Text := Utf8.decodeLossy path.bytes

/-- The text that a path spells, if it is UTF-8. -/
def toText? (path : Path) : Option Text := Utf8.decode? path.bytes

/-- The pieces between the slashes. -/
def segments (path : Path) : List Bytes := path.bytes.splitOn slash

/-- Whether a path begins at the root. -/
def isAbsolute (path : Path) : Bool := path.bytes.head? == some slash

/-! ## §2. Components. -/

/-- The component that a segment stands for; the empty segment and `.` stand for none. -/
def segmentComponent? (segment : Bytes) : Option Component :=
  if segment = [] ∨ segment = [dot] then none
  else if segment = [dot, dot] then some .parent
  else some (.name segment)

/-- The first component, for a path that begins with a slash or with the segment `.`. -/
def leading (path : Path) : List Component :=
  if path.isAbsolute then [.root]
  else if path.segments.head? = some [dot] then [.here]
  else []

/-- The components of a path, in order. -/
def components (path : Path) : List Component :=
  path.leading ++ path.segments.filterMap segmentComponent?

/-- The spelling of a component between two slashes; the root is spelled by its slash alone. -/
def componentBytes : Component → Bytes
  | .root => []
  | .here => [dot]
  | .parent => [dot, dot]
  | .name bytes => bytes

/-- The plainest path with the given components: single slashes, none at the end. -/
def ofComponents : List Component → Path
  | .root :: rest => ⟨slash :: [slash].intercalate (rest.map componentBytes)⟩
  | components => ⟨[slash].intercalate (components.map componentBytes)⟩

/-! ## §3. Joining. -/

/-- The path seen from the directory `base`: an absolute path stays as it is, a relative one is
written behind `base` and a slash, which is left out where `base` is empty or ends in one. -/
def join (base path : Path) : Path :=
  if path.isAbsolute then path
  else if base.bytes = [] ∨ base.bytes.getLast? = some slash then ⟨base.bytes ++ path.bytes⟩
  else ⟨base.bytes ++ slash :: path.bytes⟩

/-! ## §4. Directory and file name. -/

/-- Whether a segment at the given position gives no component. -/
def isIdleSegment (path : Path) : Bytes × Nat → Bool
  | (segment, 0) => segment = [] ∧ ¬ path.isAbsolute
  | (segment, _ + 1) => segment = [] ∨ segment = [dot]

/-- The numbered segments without those at the end that give no component, last one first. -/
def activeSegments (path : Path) : List (Bytes × Nat) :=
  path.segments.zipIdx.reverse.dropWhile path.isIdleSegment

/-- The path spelled by segments that stand in reverse order; the first segment of an absolute
path is its root. -/
def ofReversedSegments (path : Path) (segments : List (Bytes × Nat)) : Path :=
  match segments with
  | [(_, 0)] => if path.isAbsolute then ⟨[slash]⟩ else ⟨spelled⟩
  | _ => ⟨spelled⟩
where
  spelled : Bytes := [slash].intercalate (segments.map Prod.fst).reverse

/-- The path without its last component and the idle segments before that; none for the root and
for the empty path. -/
def parent? (path : Path) : Option Path :=
  match path.activeSegments with
  | [] => none
  | (_, position) :: rest =>
    if position = 0 ∧ path.isAbsolute then none
    else some (path.ofReversedSegments (rest.dropWhile path.isIdleSegment))

/-- The directory that holds a document: its parent, or `.` where that is empty or missing. -/
def directory (path : Path) : Path :=
  match path.parent? with
  | some parent => if parent.bytes = [] then ⟨[dot]⟩ else parent
  | none => ⟨[dot]⟩

/-- The path up to the end of its last component, where that is a name. -/
def upToName? (path : Path) : Option Path :=
  match path.activeSegments with
  | [] => none
  | (segment, position) :: rest =>
    match segmentComponent? segment with
    | some (.name _) => some (path.ofReversedSegments ((segment, position) :: rest))
    | _ => none

/-- The path with `suffix` written behind its file name, where it has one. -/
def withSuffix? (path : Path) (suffix : Text) : Option Path :=
  path.upToName?.map fun p => ⟨p.bytes ++ Utf8.encode suffix⟩


end Path

end YamlDocs
