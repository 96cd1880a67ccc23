/-
  YamlDocs.Proofs.Path.Congruence
  ────────────────────────────────
  **NORMALIZING A PART OF A PATH.**

  The stack of the normalization reads what another stack has left just as
  it would have read what that one read: a name that was taken back there
  would have been taken back here, a `..` that stayed there is still to come,
  and at the root both forget it (`foldl_reverse_pushComponent`).  So it makes no
  difference whether a part of the components is normalized beforehand
  (`foldl_normalComponents`).

  From this:

    • normalizing twice is normalizing once (`normalize_normalize`),
    • either side of a joined path may be normalized before it is joined
      (`normalize_join_normalize`, `normalize_normalize_join`).
-/
import YamlDocs.Proofs.Path.Join
import YamlDocs.Proofs.Path.Normal

namespace YamlDocs.Path

/-! ## §1. Two stacks. -/

theorem foldl_reverse_cons (stack below : List Component) (top : Component) :
    (top :: below).reverse.foldl pushComponent stack =
      pushComponent (below.reverse.foldl pushComponent stack) top := by
  rw [List.reverse_cons, List.foldl_append]
  rfl

/-- **One component more**: a stack that reads another one, with a component pushed on the other,
is the stack that has read both. -/
theorem foldl_reverse_pushComponent (stack other : List Component) (component : Component) :
    (pushComponent other component).reverse.foldl pushComponent stack =
      pushComponent (other.reverse.foldl pushComponent stack) component := by
  have hpushed := foldl_reverse_cons stack other component
  cases component with
  | root => exact hpushed
  | name bytes => exact hpushed
  | here => rfl
  | parent =>
      cases other with
      | nil => exact hpushed
      | cons top below =>
          cases top with
          | here => exact hpushed
          | parent => exact hpushed
          | root =>
              -- The root is read last, so a `..` has no effect on either stack.
              show (Component.root :: below).reverse.foldl pushComponent stack = _
              rw [foldl_reverse_cons]
              rfl
          | name bytes =>
              -- The name is taken back from both stacks.
              show below.reverse.foldl pushComponent stack = _
              rw [foldl_reverse_cons]
              rfl

/-- All components, read by another stack first. -/
theorem foldl_reverse_foldl_pushComponent (stack components : List Component) :
    ∀ other : List Component,
      (components.foldl pushComponent other).reverse.foldl pushComponent stack =
        components.foldl pushComponent (other.reverse.foldl pushComponent stack) := by
  induction components with
  | nil => intro other; rfl
  | cons component rest ih =>
      intro other
      rw [List.foldl_cons, List.foldl_cons, ih, foldl_reverse_pushComponent]

/-- **Components may be normalized before a stack reads them.** -/
theorem foldl_normalComponents (stack components : List Component) :
    (normalComponents components).foldl pushComponent stack =
      components.foldl pushComponent stack :=
  foldl_reverse_foldl_pushComponent stack components []

/-! ## §2. Normalized paths. -/

variable {base path : Path}

/-- What a stack reads of a normalized path is what it reads of the path. -/
theorem foldl_components_normalize (path : Path) (stack : List Component) :
    path.normalize.components.foldl pushComponent stack =
      path.components.foldl pushComponent stack := by
  rw [components_normalize, ← foldl_normalComponents stack path.components]
  split
  case isTrue hnil =>
    -- The dot that stands for nothing is passed over.
    rw [hnil]
    rfl
  case isFalse => rfl

/-- Paths of which the empty stack reads the same have one normal form. -/
theorem normalize_eq_of_foldl_eq {p q : Path}
    (h : p.components.foldl pushComponent [] = q.components.foldl pushComponent []) :
    p.normalize = q.normalize := by
  unfold normalize normalComponents
  rw [h]

/-- **Normalizing twice is normalizing once.** -/
theorem normalize_normalize (path : Path) : path.normalize.normalize = path.normalize :=
  normalize_eq_of_foldl_eq (foldl_components_normalize path [])

/-- The absolute paths are those with the root among their components. -/
theorem isAbsolute_iff_root_mem : path.isAbsolute = true ↔ .root ∈ path.components := by
  have hinner : .root ∉ path.inner := fun h => (ne_root_and_ne_here_of_mem_inner h).1 rfl
  have hcomponents : path.components = path.leading ++ path.inner := rfl
  rw [hcomponents, List.mem_append, or_iff_left hinner]
  unfold leading
  split
  case isTrue habsolute => simp [habsolute]
  case isFalse hrelative => split <;> simp [hrelative]

/-- **Normalization keeps a path absolute or relative.** -/
theorem isAbsolute_normalize (path : Path) : path.normalize.isAbsolute = path.isAbsolute := by
  obtain ⟨rest, hplain, heq⟩ := normalComponents_eq path
  have hrest : .root ∉ rest := fun h => Component.not_plain_root (hplain _ h)
  rw [Bool.eq_iff_iff, isAbsolute_iff_root_mem, components_normalize, heq]
  cases hpath : path.isAbsolute with
  | true => simp
  | false =>
      by_cases hnil : rest = []
      · simp [hnil]
      · simp [hnil, hrest]

/-! ## §3. Joined paths. -/

/-- A dot in front of a relative path is passed over. -/
theorem foldl_components_of_relative (h : path.isAbsolute = false) (stack : List Component) :
    path.components.foldl pushComponent stack = path.inner.foldl pushComponent stack := by
  show (path.leading ++ path.inner).foldl pushComponent stack = _
  rw [List.foldl_append]
  unfold leading
  rw [h, if_neg Bool.false_ne_true]
  split <;> rfl

/-- **What a stack reads of a joined path**: the base and then the relative path. -/
theorem foldl_components_join (h : path.isAbsolute = false) (stack : List Component) :
    (base.join path).components.foldl pushComponent stack =
      path.components.foldl pushComponent (base.components.foldl pushComponent stack) := by
  by_cases hbase : base.bytes = []
  · -- Behind an empty base the path stays as it is, and the base has no components.
    have hjoin : base.join path = path := by
      unfold join
      rw [h, if_neg Bool.false_ne_true, if_pos (Or.inl hbase), hbase]
      rfl
    have hempty : base.components = [] := by
      obtain ⟨bytes⟩ := base
      obtain rfl : bytes = [] := hbase
      rfl
    rw [hjoin, hempty]
    rfl
  · rw [components_join hbase h, List.foldl_append, foldl_components_of_relative h]

theorem join_of_isAbsolute (h : path.isAbsolute = true) : base.join path = path := by
  unfold join
  rw [if_pos h]

/-- **The right side may be normalized before it is joined.** -/
theorem normalize_join_normalize (base path : Path) :
    (base.join path.normalize).normalize = (base.join path).normalize := by
  cases h : path.isAbsolute with
  | true =>
      rw [join_of_isAbsolute h, join_of_isAbsolute (isAbsolute_normalize path ▸ h),
        normalize_normalize]
  | false =>
      apply normalize_eq_of_foldl_eq
      rw [foldl_components_join h, foldl_components_join (isAbsolute_normalize path ▸ h),
        foldl_components_normalize]

/-- **The left side may be normalized before it is joined.** -/
theorem normalize_normalize_join (base path : Path) :
    (base.normalize.join path).normalize = (base.join path).normalize := by
  cases h : path.isAbsolute with
  | true => rw [join_of_isAbsolute h, join_of_isAbsolute h]
  | false =>
      apply normalize_eq_of_foldl_eq
      rw [foldl_components_join h, foldl_components_join h, foldl_components_normalize]

end YamlDocs.Path
