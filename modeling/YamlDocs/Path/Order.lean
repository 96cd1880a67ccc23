/-
  YamlDocs.Path.Order
  ────────────────────────────────
  **THE ORDER OF PATHS AND SETS OF PATHS.**

  Paths are compared component by component: the root before `.`, `.` before
  `..`, `..` before names, and names byte by byte; a path comes before its
  extensions.  A `PathSet` lists paths in this order, one for each list of
  components, spelled as the first one that was put in.
-/
import YamlDocs.Path.Basic

namespace YamlDocs

namespace Component

/-! ## §1. Components. -/

/-- The rank of the kinds of component. -/
def rank : Component → Nat
  | .root => 0
  | .here => 1
  | .parent => 2
  | .name _ => 3

/-- The name of a component that has one. -/
def nameBytes : Component → Bytes
  | .name bytes => bytes
  | _ => []

/-- Components are ordered by kind, names among themselves byte by byte. -/
instance : Ord Component where
  compare := compareLex (compareOn rank) (compareOn nameBytes)

instance : Std.TransOrd Component :=
  inferInstanceAs (Std.TransCmp (compareLex (compareOn rank) (compareOn nameBytes)))

instance : Std.LawfulEqOrd Component where
  eq_of_compare {a b} h := by
    have h₁ : compareOn rank a b = .eq ∧ compareOn nameBytes a b = .eq := by
      simpa [compare, compareLex, Ordering.then_eq_eq] using h
    have hr : a.rank = b.rank := Std.LawfulEqOrd.eq_of_compare h₁.1
    have hn : a.nameBytes = b.nameBytes := Std.LawfulEqOrd.eq_of_compare h₁.2
    cases a <;> cases b <;> simp_all [rank, nameBytes]

end Component

/-! ## §2. Paths. -/

/-- Paths are compared by their lists of components. -/
instance : Ord Path where
  compare p q := compare p.components q.components

/-! ## §3. Sets of paths. -/

/-- Paths in increasing order. -/
structure PathSet where
  toList : List Path := []
deriving Repr, Inhabited

namespace PathSet

/-- Puts a path at its place in an increasing list, unless a path with the same components stands
there already. -/
def insertInto (path : Path) : List Path → List Path
  | [] => [path]
  | head :: rest =>
    match compare path head with
    | .lt => path :: head :: rest
    | .eq => head :: rest
    | .gt => head :: insertInto path rest

/-- The set with one more path; of equal ones the first spelling stays. -/
def insert (set : PathSet) (path : Path) : PathSet := ⟨insertInto path set.toList⟩

end PathSet

end YamlDocs
