/-
  YamlDocs.Proofs.Files.Walk
  ────────────────────────────────
  **WALKING IN A TREE.**

  A walk sees three things at a location: nothing, a directory, or a file
  with its bytes (`Node.sight`).  One step needs a directory where it starts
  and, for a name, something where it ends (`step_eq_ok_iff`); everything
  else about walks is said in terms of such steps.  So a tree in which
  directories stay directories and nothing vanishes keeps every walk
  (`walk_of_sight`).
-/
import YamlDocs.Files.Tree

namespace YamlDocs.Node

/-! ## §1. What is seen at a location. -/

/-- What is seen at a location. -/
inductive Sight where
  | nothing
  | directory
  | file (content : Bytes)
deriving DecidableEq, Repr

/-- What a node is seen as. -/
def Sight.ofNode? : Option Node → Sight
  | none => .nothing
  | some (.directory _) => .directory
  | some (.file content) => .file content

/-- What is seen at a location of a tree. -/
def sight (tree : Node) (location : Location) : Sight := Sight.ofNode? (tree.at? location)

section Sight

variable {tree : Node} {location : Location}

theorem sight_eq_directory_iff :
    tree.sight location = .directory ↔ ∃ entries, tree.at? location = some (.directory entries) := by
  unfold sight
  cases tree.at? location with
  | none => exact iff_of_false nofun fun h => nomatch h.choose_spec
  | some node =>
      cases node with
      | file content => exact iff_of_false nofun fun h => nomatch h.choose_spec
      | directory entries => exact iff_of_true rfl ⟨entries, rfl⟩

theorem sight_eq_file_iff {content : Bytes} :
    tree.sight location = .file content ↔ tree.at? location = some (.file content) := by
  unfold sight
  cases tree.at? location with
  | none => exact iff_of_false nofun nofun
  | some node =>
      cases node with
      | file other => simp [Sight.ofNode?]
      | directory entries => exact iff_of_false nofun nofun

theorem sight_eq_nothing_iff : tree.sight location = .nothing ↔ tree.at? location = none := by
  unfold sight
  cases tree.at? location with
  | none => exact iff_of_true rfl rfl
  | some node => cases node <;> exact iff_of_false nofun nofun

/-! ## §2. Below a location. -/

theorem descend?_append (tree : Node) (first second : List Bytes) :
    tree.descend? (first ++ second) =
      (tree.descend? first).bind fun node => node.descend? second := by
  induction first generalizing tree with
  | nil => rfl
  | cons name rest ih =>
      rw [List.cons_append, descend?, descend?]
      cases tree.child? name with
      | none => rfl
      | some child => exact ih child

/-- What lies at a name is an entry of what lies in front of it. -/
theorem at?_cons (tree : Node) (name : Bytes) (location : Location) :
    tree.at? (name :: location) = (tree.at? location).bind fun node => node.child? name := by
  unfold at?
  rw [List.reverse_cons, descend?_append]
  congr 1
  funext node
  rw [descend?]
  cases node.child? name <;> rfl

/-- Only a directory has something below it. -/
theorem sight_of_sight_cons {name : Bytes} (h : tree.sight (name :: location) ≠ .nothing) :
    tree.sight location = .directory := by
  rw [Ne, sight_eq_nothing_iff, at?_cons] at h
  rw [sight_eq_directory_iff]
  cases hnode : tree.at? location with
  | none => rw [hnode] at h; exact absurd rfl h
  | some node =>
      cases node with
      | file content => rw [hnode] at h; exact absurd rfl h
      | directory entries => exact ⟨entries, rfl⟩

/-- Every location in front of a directory is one. -/
theorem sight_of_sight_append (front : Location)
    (h : tree.sight (front ++ location) = .directory) : tree.sight location = .directory := by
  induction front with
  | nil => exact h
  | cons name front ih =>
      have hthere : tree.sight (name :: (front ++ location)) ≠ .nothing := by
        rw [← List.cons_append, h]
        exact nofun
      exact ih (sight_of_sight_cons hthere)

end Sight

/-! ## §3. One step. -/

/-- Where a component leads from a directory. -/
inductive Leads (tree : Node) (location : Location) : Component → Location → Prop
  | root : Leads tree location .root []
  | here : Leads tree location .here location
  | parent : Leads tree location .parent location.tail
  | name {name : Bytes} (hlength : name.length ≤ maxNameLength)
      (hthere : tree.sight (name :: location) ≠ .nothing) :
      Leads tree location (.name name) (name :: location)

/-- A directory has an entry with a name exactly where something is seen below it. -/
theorem isSome_lookup_iff {tree : Node} {location : Location} {entries : List (Bytes × Node)}
    (h : tree.at? location = some (.directory entries)) (name : Bytes) :
    (entries.lookup name).isSome = true ↔ tree.sight (name :: location) ≠ .nothing := by
  rw [Ne, sight_eq_nothing_iff, at?_cons, h, Option.isSome_iff_ne_none]
  rfl

/-- **A step starts in a directory** and goes where its component leads. -/
theorem step_eq_ok_iff {tree : Node} {location next : Location} {component : Component} :
    tree.step location component = .ok next ↔
      tree.sight location = .directory ∧ tree.Leads location component next := by
  rw [sight_eq_directory_iff]
  unfold step
  constructor
  · intro h
    cases hnode : tree.at? location with
    | none => rw [hnode] at h; exact nomatch h
    | some node =>
        rw [hnode] at h
        cases node with
        | file content => exact nomatch h
        | directory entries =>
            refine ⟨⟨entries, rfl⟩, ?_⟩
            cases component with
            | root => obtain rfl := Except.ok.inj h; exact .root
            | here => obtain rfl := Except.ok.inj h; exact .here
            | parent => obtain rfl := Except.ok.inj h; exact .parent
            | name name =>
                simp only at h
                split at h
                case isTrue => exact nomatch h
                case isFalse hlong =>
                  split at h
                  case isFalse => exact nomatch h
                  case isTrue hsome =>
                    obtain rfl := Except.ok.inj h
                    exact .name (Nat.not_lt.mp hlong) ((isSome_lookup_iff hnode name).mp hsome)
  · intro h
    obtain ⟨⟨entries, hnode⟩, hleads⟩ := h
    rw [hnode]
    cases hleads with
    | root => rfl
    | here => rfl
    | parent => rfl
    | name hlength hthere =>
        show (if _ then _ else if _ then _ else _) = _
        rw [if_neg (Nat.not_lt.mpr hlength), if_pos ((isSome_lookup_iff hnode _).mpr hthere)]

/-! ## §4. Walks. -/

section Walk

variable {tree : Node} {start location : Location}

theorem walk_cons_eq_ok_iff {component : Component} {rest : List Component} :
    tree.walk start (component :: rest) = .ok location ↔
      ∃ next, tree.step start component = .ok next ∧ tree.walk next rest = .ok location := by
  rw [walk]
  cases tree.step start component with
  | ok next => simp
  | error error => simp

/-- A walk goes on where its first part ends. -/
theorem walk_append_eq_ok_iff {first second : List Component} :
    tree.walk start (first ++ second) = .ok location ↔
      ∃ middle, tree.walk start first = .ok middle ∧ tree.walk middle second = .ok location := by
  induction first generalizing start with
  | nil => simp [walk]
  | cons component rest ih =>
      rw [List.cons_append, walk_cons_eq_ok_iff]
      simp only [ih, walk_cons_eq_ok_iff]
      constructor
      · intro h
        obtain ⟨next, hstep, middle, hfirst, hsecond⟩ := h
        exact ⟨middle, ⟨next, hstep, hfirst⟩, hsecond⟩
      · intro h
        obtain ⟨middle, ⟨next, hstep, hfirst⟩, hsecond⟩ := h
        exact ⟨next, hstep, middle, hfirst, hsecond⟩

theorem walk_singleton_eq_ok_iff {component : Component} :
    tree.walk start [component] = .ok location ↔ tree.step start component = .ok location := by
  rw [walk_cons_eq_ok_iff]
  simp [walk]

/-- **Walks are kept** by a tree in which directories stay directories and nothing vanishes. -/
theorem walk_of_sight {other : Node}
    (hdirectory : ∀ l, tree.sight l = .directory → other.sight l = .directory)
    (hthere : ∀ l, tree.sight l ≠ .nothing → other.sight l ≠ .nothing)
    {components : List Component} (h : tree.walk start components = .ok location) :
    other.walk start components = .ok location := by
  induction components generalizing start with
  | nil => exact h
  | cons component rest ih =>
      obtain ⟨next, hstep, hrest⟩ := walk_cons_eq_ok_iff.mp h
      obtain ⟨hstart, hleads⟩ := step_eq_ok_iff.mp hstep
      have hleads' : other.Leads start component next := by
        cases hleads with
        | root => exact .root
        | here => exact .here
        | parent => exact .parent
        | name hlength hsome => exact .name hlength (hthere _ hsome)
      exact walk_cons_eq_ok_iff.mpr
        ⟨next, step_eq_ok_iff.mpr ⟨hdirectory _ hstart, hleads'⟩, ih hrest⟩

end Walk

end YamlDocs.Node

namespace YamlDocs.Disk

/-! ## §5. Opening files. -/

/-- **A path opens** if its spelling is accepted, it does not ask for a directory, and it leads to a
file. -/
theorem openFile_eq_ok_iff {disk : Disk} {path : Path} {content : Bytes} :
    disk.openFile path = .ok content ↔
      checkSpelling path = .ok () ∧ namesDirectory path = false ∧
        ∃ location, disk.tree.walk disk.workingDirectory path.components = .ok location ∧
          disk.tree.sight location = .file content := by
  unfold openFile
  cases hspelling : checkSpelling path with
  | error error => exact iff_of_false nofun fun h => nomatch h.1
  | ok accepted =>
      cases hwalk : disk.tree.walk disk.workingDirectory path.components with
      | error error => exact iff_of_false nofun fun h => nomatch h.2.2.choose_spec.1
      | ok location =>
          have honly : (∃ l, (Except.ok location : Except OpenError Location) = .ok l ∧
              disk.tree.sight l = .file content) ↔ disk.tree.sight location = .file content := by
            constructor
            · intro h
              obtain ⟨l, hl, hsight⟩ := h
              obtain rfl := Except.ok.inj hl
              exact hsight
            · intro h
              exact ⟨location, rfl, h⟩
          rw [honly, Node.sight_eq_file_iff]
          simp only [bind, Except.bind]
          cases disk.tree.at? location with
          | none => exact iff_of_false nofun fun h => nomatch h.2.2
          | some node =>
              cases node with
              | directory entries => exact iff_of_false nofun fun h => nomatch h.2.2
              | file found => cases namesDirectory path <;> simp

end YamlDocs.Disk
