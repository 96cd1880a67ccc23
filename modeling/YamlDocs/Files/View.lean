/-
  YamlDocs.Files.View
  ────────────────────────────────
  **WHAT THE FILE SYSTEM ANSWERS.**

  A program that only reads files needs to know one thing about the file
  system: what opening each path gives.  A `FileView` is that function.  All
  of the library that reads files takes a view, so a run of it is determined
  by the view and its other arguments.

  Regular files are taken to be readable: whoever finds one at a path gets
  its bytes.  That access is denied happens in directories that may not be
  entered, and when a file is written.
-/
import YamlDocs.Path.Basic

namespace YamlDocs

/-! ## §1. Opening a path. -/

/-- Why a path cannot be opened as a file. -/
inductive OpenError where
  /-- Some component does not exist. -/
  | missing
  /-- The path names a directory. -/
  | isDirectory
  /-- A component that has to be a directory is a file. -/
  | notDirectory
  /-- A component or the whole path is longer than the file system allows. -/
  | tooLong
  /-- The path holds a NUL byte. -/
  | holdsNul
  /-- Access is not allowed. -/
  | denied
deriving DecidableEq, Repr

/-- The wording of an `OpenError`. -/
def OpenError.message : OpenError → Text
  | .missing => "No such file or directory (os error 2)".toList
  | .isDirectory => "Is a directory (os error 21)".toList
  | .notDirectory => "Not a directory (os error 20)".toList
  | .tooLong => "File name too long (os error 36)".toList
  | .holdsNul => "file name contained an unexpected NUL byte".toList
  | .denied => "Permission denied (os error 13)".toList

/-- What opening each path gives: the bytes of a regular file, or the reason why there is none. -/
abbrev FileView := Path → Except OpenError Bytes

namespace FileView

/-- The bytes of the regular file that a path names, if it names one. -/
def file? (view : FileView) (path : Path) : Option Bytes :=
  match view path with
  | .ok bytes => some bytes
  | .error _ => none

/-- Whether a path names a regular file. -/
def isFile (view : FileView) (path : Path) : Bool := (view.file? path).isSome

end FileView

/-! ## §2. Reading text. -/

/-- Why a file cannot be read as text. -/
inductive ReadError where
  /-- It cannot be opened. -/
  | unopened (error : OpenError)
  /-- Its bytes are not UTF-8. -/
  | notUtf8
deriving DecidableEq, Repr

/-- The wording for bytes that are not UTF-8. -/
def notUtf8Message : Text := "stream did not contain valid UTF-8".toList

/-- The wording of a `ReadError`. -/
def ReadError.message : ReadError → Text
  | .unopened error => error.message
  | .notUtf8 => notUtf8Message

/-- The text of the file that a path names. -/
def FileView.readText (view : FileView) (path : Path) : Except ReadError Text :=
  match view path with
  | .error error => .error (.unopened error)
  | .ok bytes =>
    match Utf8.decode? bytes with
    | some text => .ok text
    | none => .error .notUtf8

end YamlDocs
