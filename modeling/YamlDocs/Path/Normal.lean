/-
  YamlDocs.Path.Normal
  ────────────────────────────────
  **LEXICAL NORMALIZATION.**

  `normalize` drops `.` and lets `..` take back the name before it, without
  looking at any directory.  It runs over the components with a stack whose
  top is the last component kept.  At the root `..` has no effect; with
  nothing to take back it stays.  When nothing is left the result is `.`.
-/
import YamlDocs.Path.Basic

namespace YamlDocs.Path

/-! ## §1. One component. -/

/-- The stack after one more component. -/
def pushComponent (stack : List Component) : Component → List Component
  | .here => stack
  | .parent =>
    match stack with
    | .name _ :: below => below
    | .root :: _ => stack
    | _ => .parent :: stack
  | component => component :: stack

/-! ## §2. All components. -/

/-- The components that remain after normalization. -/
def normalComponents (components : List Component) : List Component :=
  (components.foldl pushComponent []).reverse

/-- The path that the components name, in its plainest form. -/
def ofNormalComponents : List Component → Path
  | [] => ⟨[dot]⟩
  | components => ofComponents components

/-- The canonical spelling of a path, found without looking at the file system. -/
def normalize (path : Path) : Path := ofNormalComponents (normalComponents path.components)

/-! ## §3. Seen from a directory. -/

/-- What remains of `path` and `base` when their common beginning is left out. -/
def dropCommon : List Component → List Component → List Component × List Component
  | a :: path, b :: base => if a = b then dropCommon path base else (a :: path, b :: base)
  | path, base => (path, base)

/-- The way from the directory `base` to `path`: one `..` for each component of `base` that `path`
does not share, then what is left of `path`. -/
def relativeTo (path base : Path) : Path :=
  let (rest, climb) := dropCommon path.components base.components
  ofComponents (climb.map (fun _ => .parent) ++ rest)

end YamlDocs.Path
