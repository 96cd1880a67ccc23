/-
  YamlDocs.Proofs.Path.Canonical
  ────────────────────────────────
  **CANONICAL PATHS.**

  A canonical path is spelled by the root and names alone: no `.` and no
  `..`, single slashes and none at the end.  Components without a root climb
  first: the stack that reads them holds names over a run of `..`, because a
  `..` goes to the run only if no name lies above it (`exists_climb`).  Over
  the root the run is forgotten and the names stay
  (`normalComponents_components`).  So every absolute path is normalized to a
  canonical one (`isCanonical_normalize`).
-/
import YamlDocs.Proofs.Path.Cancel
import YamlDocs.Proofs.Path.Congruence

namespace YamlDocs.Path

/-! ## §1. Canonical spellings. -/

/-- A segment that names an entry of a directory. -/
def IsName (segment : Bytes) : Prop :=
  segment ≠ [] ∧ segment ≠ [dot] ∧ segment ≠ [dot, dot] ∧ slash ∉ segment

instance : DecidablePred IsName := fun segment =>
  inferInstanceAs (Decidable (segment ≠ [] ∧ segment ≠ [dot] ∧ segment ≠ [dot, dot] ∧
    slash ∉ segment))

/-- The path is the root and behind it names, with one slash between two of them. -/
def IsCanonical (path : Path) : Prop :=
  ∃ names : List Bytes, (∀ name ∈ names, IsName name) ∧
    path.bytes = slash :: [slash].intercalate names

/-- A plain name is spelled by a name. -/
theorem isName_of_plain {bytes : Bytes} (h : (Component.name bytes).Plain) : IsName bytes := by
  refine ⟨h.bytes_ne_nil, h.bytes_ne_dot, ?_, h.2⟩
  rintro rfl
  exact nomatch h.1

/-- A name spells a plain name. -/
theorem plain_of_isName {bytes : Bytes} (h : IsName bytes) : (Component.name bytes).Plain := by
  obtain ⟨hne, hdot, hdots, hslash⟩ := h
  refine ⟨?_, hslash⟩
  show segmentComponent? bytes = some (.name bytes)
  unfold segmentComponent?
  rw [if_neg (by simp [hne, hdot]), if_neg hdots]

theorem plain_of_mem_names {names : List Bytes} (h : ∀ name ∈ names, IsName name) :
    ∀ c ∈ names.map Component.name, c.Plain := by
  intro c hc
  obtain ⟨name, hname, rfl⟩ := List.mem_map.mp hc
  exact plain_of_isName (h name hname)

theorem map_componentBytes_names (names : List Bytes) :
    (names.map Component.name).map componentBytes = names := by
  rw [List.map_map]
  exact List.map_id names

theorem ofComponents_names (names : List Bytes) :
    ofComponents (.root :: names.map .name) = ⟨slash :: [slash].intercalate names⟩ := by
  show (⟨slash :: [slash].intercalate ((names.map .name).map componentBytes)⟩ : Path) = _
  rw [map_componentBytes_names]

/-- Plain components that are names are spelled by names. -/
theorem exists_names {components : List Component}
    (h : ∀ c ∈ components, c.isName = true ∧ c.Plain) :
    ∃ names : List Bytes, (∀ name ∈ names, IsName name) ∧ components = names.map .name := by
  induction components with
  | nil => exact ⟨[], fun _ hname => (nomatch hname), rfl⟩
  | cons component rest ih =>
      obtain ⟨⟨hname, hplain⟩, hrest⟩ := List.forall_mem_cons.mp h
      obtain ⟨names, hnames, rfl⟩ := ih hrest
      cases component with
      | name bytes =>
          exact ⟨bytes :: names, List.forall_mem_cons.mpr ⟨isName_of_plain hplain, hnames⟩, rfl⟩
      | root => exact nomatch hname
      | here => exact nomatch hname
      | parent => exact nomatch hname

/-! ## §2. Names over a run of `..`. -/

/-- The components of `..` some times and then names. -/
def climb (steps : Nat) (names : List Bytes) : List Component :=
  List.replicate steps .parent ++ names.map .name

/-- One component keeps names over a run of `..`: it belongs to the names, or it is a `..` that
finds none of them and makes the run longer. -/
theorem pushComponent_over {names : List Component} {component : Component} (steps : Nat)
    (hnames : ∀ c ∈ names, c.isName = true) (hroot : component ≠ .root) :
    ∃ names' steps', (∀ c ∈ names', c.isName = true) ∧
      pushComponent (names ++ List.replicate steps .parent) component =
        names' ++ List.replicate steps' .parent := by
  cases component with
  | root => exact absurd rfl hroot
  | here => exact ⟨names, steps, hnames, rfl⟩
  | name bytes =>
      exact ⟨.name bytes :: names, steps, List.forall_mem_cons.mpr ⟨rfl, hnames⟩, rfl⟩
  | parent =>
      cases names with
      | nil =>
          -- No name is left to take back.
          refine ⟨[], steps + 1, hnames, ?_⟩
          cases steps <;> rfl
      | cons last below =>
          obtain ⟨hlast, hbelow⟩ := List.forall_mem_cons.mp hnames
          cases last with
          | name bytes => exact ⟨below, steps, hbelow, rfl⟩
          | root => exact nomatch hlast
          | here => exact nomatch hlast
          | parent => exact nomatch hlast

/-- **The stack holds names over a run of `..`**, whatever is pushed on it. -/
theorem foldl_pushComponent_over (components : List Component)
    (hroot : ∀ c ∈ components, c ≠ .root) :
    ∀ (names : List Component) (steps : Nat), (∀ c ∈ names, c.isName = true) →
      ∃ names' steps', (∀ c ∈ names', c.isName = true) ∧
        components.foldl pushComponent (names ++ List.replicate steps .parent) =
          names' ++ List.replicate steps' .parent := by
  induction components with
  | nil => intro names steps hnames; exact ⟨names, steps, hnames, rfl⟩
  | cons component rest ih =>
      intro names steps hnames
      obtain ⟨hcomponent, hrest⟩ := List.forall_mem_cons.mp hroot
      obtain ⟨names', steps', hnames', heq⟩ := pushComponent_over steps hnames hcomponent
      rw [List.foldl_cons, heq]
      exact ih hrest names' steps' hnames'

/-- Inner components are normalized by cancelling alone. -/
theorem cancels_normalComponents_inner (path : Path) :
    Relation.ReflTransGen CancelStep path.inner (normalComponents path.inner) :=
  cancels_foldl_pushComponent path.inner (fun _ hc => ne_root_and_ne_here_of_mem_inner hc) []
    List.not_mem_nil

/-- **What normalization keeps of inner components**: some `..` and then names. -/
theorem exists_climb (path : Path) :
    ∃ steps names, (∀ name ∈ names, IsName name) ∧
      normalComponents path.inner = climb steps names := by
  obtain ⟨top, steps, htop, hfold⟩ := foldl_pushComponent_over path.inner
    (fun c hc => (ne_root_and_ne_here_of_mem_inner hc).1) [] 0 (fun c hc => nomatch hc)
  have hkept : normalComponents path.inner = List.replicate steps .parent ++ top.reverse := by
    unfold normalComponents
    rw [List.nil_append, List.replicate_zero] at hfold
    rw [hfold, List.reverse_append, List.reverse_replicate]
  -- What is kept was there before, so each of the names is spelled by one segment.
  have hnamed : ∀ c ∈ top.reverse, c.isName = true ∧ c.Plain := by
    intro c hc
    refine ⟨htop c (List.mem_reverse.mp hc), ?_⟩
    have hmem : c ∈ normalComponents path.inner := by
      rw [hkept]
      exact List.mem_append_right _ hc
    have hinner : c ∈ path.inner :=
      (sublist_of_cancels (cancels_normalComponents_inner path)).subset hmem
    exact plain_of_mem_segments path c hinner
  obtain ⟨names, hnames, heq⟩ := exists_names hnamed
  exact ⟨steps, names, hnames, by rw [hkept, heq]; rfl⟩

/-! ## §3. Behind the root. -/

theorem foldl_pushComponent_names_map (names : List Bytes) :
    ∀ stack : List Component, (names.map Component.name).foldl pushComponent stack =
      (names.map Component.name).reverse ++ stack := by
  induction names with
  | nil => intro stack; rfl
  | cons name rest ih =>
      intro stack
      show (rest.map Component.name).foldl pushComponent (.name name :: stack) = _
      rw [ih, List.map_cons, List.reverse_cons, List.append_assoc]
      rfl

/-- At the root a run of `..` has no effect. -/
theorem foldl_pushComponent_climb_root (steps : Nat) (names : List Bytes) :
    (climb steps names).foldl pushComponent [.root] =
      (names.map Component.name).reverse ++ [.root] := by
  have hrun : (List.replicate steps Component.parent).foldl pushComponent [.root] = [.root] := by
    induction steps with
    | zero => rfl
    | succ steps ih =>
        rw [List.replicate_succ, List.foldl_cons]
        exact ih
  unfold climb
  rw [List.foldl_append, hrun, foldl_pushComponent_names_map]

/-- **What normalization keeps of a path**: behind the root the names that are kept without it,
and without a root just what is kept of the inner components. -/
theorem normalComponents_components {path : Path} {steps : Nat} {names : List Bytes}
    (hinner : normalComponents path.inner = climb steps names) :
    normalComponents path.components =
      if path.isAbsolute then .root :: names.map .name else climb steps names := by
  cases h : path.isAbsolute with
  | true =>
      rw [components_of_isAbsolute h]
      show (path.inner.foldl pushComponent [.root]).reverse = _
      rw [← foldl_normalComponents, hinner, foldl_pushComponent_climb_root, List.reverse_append,
        List.reverse_reverse]
      rfl
  | false =>
      unfold normalComponents
      rw [foldl_components_of_relative h]
      exact hinner

/-! ## §4. Normalized paths. -/

/-- **An absolute path is normalized to a canonical one.** -/
theorem isCanonical_normalize {path : Path} (h : path.isAbsolute = true) :
    path.normalize.IsCanonical := by
  obtain ⟨steps, names, hnames, hinner⟩ := exists_climb path
  refine ⟨names, hnames, ?_⟩
  unfold normalize
  rw [normalComponents_components hinner, if_pos h]
  exact congrArg Path.bytes (ofComponents_names names)

end YamlDocs.Path
