/-
  YamlDocs.Proofs.Files.Naming
  ────────────────────────────────
  **NORMALIZED PATHS NAME THE SAME NODES.**

  While a path is walked, the stack of its normalization leads from the same
  start to where the walk is: what a `..` takes back is the last step, at the
  root there is nothing to take back, and elsewhere the `..` is kept
  (`walk_pushComponent`).  So if a path leads to a node of a tree without
  symbolic links, its normalized form leads there too (`walk_normalize`).
  An argument is therefore resolved to the file that it names as written
  (`normalize_keeps_node`).
-/
import YamlDocs.Document.Environment
import YamlDocs.Proofs.Files.Walk
import YamlDocs.Proofs.Path.Canonical

namespace YamlDocs

open YamlDocs.Path (pushComponent normalComponents)

/-! ## §1. The stack leads to where the walk is. -/

namespace Node

variable {tree : Node} {start location : Location}

/-- A stack leads where its top leads from where the stack below it leads. -/
theorem walk_reverse_cons_eq_ok_iff {top : Component} {below : List Component} :
    tree.walk start (top :: below).reverse = .ok location ↔
      ∃ before, tree.walk start below.reverse = .ok before ∧
        tree.step before top = .ok location := by
  rw [List.reverse_cons, walk_append_eq_ok_iff]
  simp only [walk_singleton_eq_ok_iff]

/-- **One component more**, on the walk and on the stack. -/
theorem walk_pushComponent {stack : List Component} {middle : Location} {component : Component}
    (hstack : tree.walk start stack.reverse = .ok middle)
    (hstep : tree.step middle component = .ok location) :
    tree.walk start (pushComponent stack component).reverse = .ok location := by
  have hpushed : tree.walk start (component :: stack).reverse = .ok location :=
    walk_reverse_cons_eq_ok_iff.mpr ⟨middle, hstack, hstep⟩
  cases component with
  | root => exact hpushed
  | name bytes => exact hpushed
  | here =>
      obtain ⟨-, hleads⟩ := step_eq_ok_iff.mp hstep
      cases hleads
      exact hstack
  | parent =>
      obtain ⟨-, hleads⟩ := step_eq_ok_iff.mp hstep
      cases stack with
      | nil => exact hpushed
      | cons top below =>
          cases top with
          | here => exact hpushed
          | parent => exact hpushed
          | root =>
              -- The walk is at the root, whose parent is the root.
              obtain ⟨before, -, htop⟩ := walk_reverse_cons_eq_ok_iff.mp hstack
              obtain ⟨-, hroot⟩ := step_eq_ok_iff.mp htop
              cases hroot
              cases hleads
              exact hstack
          | name bytes =>
              -- The walk has just gone to an entry of a directory and goes back.
              obtain ⟨before, hbefore, htop⟩ := walk_reverse_cons_eq_ok_iff.mp hstack
              obtain ⟨-, hentry⟩ := step_eq_ok_iff.mp htop
              cases hentry
              cases hleads
              exact hbefore

/-- All components, on the walk and on the stack, which may hold some already. -/
theorem walk_foldl_pushComponent {components : List Component} :
    ∀ {stack : List Component} {middle : Location},
      tree.walk start stack.reverse = .ok middle →
      tree.walk middle components = .ok location →
      tree.walk start (components.foldl pushComponent stack).reverse = .ok location := by
  -- At every component the stack so far leads to where the walk is.
  induction components with
  | nil =>
      intro stack middle hstack hwalk
      obtain rfl := Except.ok.inj hwalk
      exact hstack
  | cons component rest ih =>
      intro stack middle hstack hwalk
      obtain ⟨next, hstep, hrest⟩ := walk_cons_eq_ok_iff.mp hwalk
      exact ih (walk_pushComponent hstack hstep) hrest

/-- **A normalized path leads where the path leads.** -/
theorem walk_normalize {path : Path} (hstart : tree.sight start = .directory)
    (h : tree.walk start path.components = .ok location) :
    tree.walk start path.normalize.components = .ok location := by
  have hempty : tree.walk start ([] : List Component).reverse = .ok start := rfl
  have hnormal : tree.walk start (normalComponents path.components) = .ok location :=
    walk_foldl_pushComponent hempty h
  rw [Path.components_normalize]
  split
  case isFalse => exact hnormal
  case isTrue hnil =>
    -- Nothing is left, so the walk ends where it starts, and a dot stays there.
    rw [hnil] at hnormal
    obtain rfl := Except.ok.inj hnormal
    exact walk_singleton_eq_ok_iff.mpr (step_eq_ok_iff.mpr ⟨hstart, .here⟩)

/-- A dot in front of a path makes no difference to where it leads. -/
theorem walk_inner {path : Path} (hpath : path.isAbsolute = false)
    (h : tree.walk start path.components = .ok location) :
    tree.walk start path.inner = .ok location := by
  obtain ⟨middle, hleading, hinner⟩ := walk_append_eq_ok_iff.mp h
  unfold Path.leading at hleading
  rw [hpath, if_neg Bool.false_ne_true] at hleading
  split at hleading
  case isTrue =>
    obtain ⟨-, hhere⟩ := step_eq_ok_iff.mp (walk_singleton_eq_ok_iff.mp hleading)
    cases hhere
    exact hinner
  case isFalse =>
    obtain rfl := Except.ok.inj hleading
    exact hinner

/-- Names lead down to a directory. -/
theorem walk_names {names : List Bytes} (hlength : ∀ name ∈ names, name.length ≤ maxNameLength) :
    ∀ {start : Location}, tree.sight (names.reverse ++ start) = .directory →
      tree.walk start (names.map .name) = .ok (names.reverse ++ start) := by
  induction names with
  | nil => intro start _; rfl
  | cons name rest ih =>
      intro start hend
      obtain ⟨hname, hrest⟩ := List.forall_mem_cons.mp hlength
      rw [List.reverse_cons, List.append_assoc, List.singleton_append] at hend ⊢
      have hbelow : tree.sight (name :: start) = .directory := sight_of_sight_append rest.reverse hend
      have hthere : tree.sight (name :: start) ≠ .nothing := by
        rw [hbelow]
        exact nofun
      rw [List.map_cons, walk_cons_eq_ok_iff]
      exact ⟨name :: start,
        step_eq_ok_iff.mpr ⟨sight_of_sight_cons hthere, .name hname hthere⟩, ih hrest hend⟩

end Node

/-! ## §2. Paths that name nodes. -/

namespace Disk

/-- The path leads to a location, and the node is there. -/
def Names (disk : Disk) (path : Path) (location : Location) (node : Node) : Prop :=
  disk.tree.walk disk.workingDirectory path.components = .ok location ∧
    disk.tree.at? location = some node

/-- A canonical path that is more than the root does not ask for a directory. -/
theorem namesDirectory_of_isCanonical {path : Path} (h : path.IsCanonical)
    (hroot : path.components ≠ [.root]) : namesDirectory path = false := by
  obtain ⟨names, hnames, hbytes⟩ := h
  obtain ⟨bytes⟩ := path
  obtain rfl : bytes = Path.slash :: [Path.slash].intercalate names := hbytes
  by_cases hnil : names = []
  · subst hnil
    exact absurd rfl hroot
  · have hsegments : (⟨Path.slash :: [Path.slash].intercalate names⟩ : Path).segments =
        [] :: names := by
      show (Path.slash :: [Path.slash].intercalate names).splitOn Path.slash = _
      rw [List.splitOn_cons_eq_if_modifyHead, if_pos (beq_self_eq_true _),
        List.splitOn_intercalate _ (fun name hname => (hnames name hname).2.2.2) hnil]
    have hlast : names.getLast hnil ∈ names := List.getLast_mem hnil
    unfold namesDirectory
    rw [hsegments, List.getLast?_cons, List.getLast?_eq_some_getLast hnil]
    simp only [Option.getD_some, decide_eq_false_iff_not, not_or]
    exact ⟨(hnames _ hlast).1, (hnames _ hlast).2.1⟩

end Disk

namespace Environment

/-- The environment starts where the disk does: its working directory is an absolute path that
leads to the disk's. -/
structure StartsAt (env : Environment) (disk : Disk) : Prop where
  isAbsolute : env.workingDirectory.isAbsolute = true
  leads : disk.tree.walk disk.workingDirectory env.workingDirectory.components =
    .ok disk.workingDirectory

/-- **The path of a working directory leads to it**, if its names are names. -/
theorem startsAt_of_workingPath {env : Environment} {disk : Disk}
    (henv : env.workingDirectory = disk.workingPath)
    (hworking : disk.tree.sight disk.workingDirectory = .directory)
    (hnames : ∀ name ∈ disk.workingDirectory,
      Path.IsName name ∧ name.length ≤ Node.maxNameLength) : env.StartsAt disk := by
  have hplain : ∀ c ∈ disk.workingDirectory.reverse.map Component.name, c.Plain :=
    Path.plain_of_mem_names fun name hname => (hnames name (List.mem_reverse.mp hname)).1
  have hlength : ∀ name ∈ disk.workingDirectory.reverse, name.length ≤ Node.maxNameLength := by
    intro name hname
    exact (hnames name (List.mem_reverse.mp hname)).2
  have hend : disk.tree.sight (disk.workingDirectory.reverse.reverse ++ []) = .directory := by
    rw [List.reverse_reverse, List.append_nil]
    exact hworking
  have hwalk := Node.walk_names hlength hend
  rw [List.reverse_reverse, List.append_nil] at hwalk
  constructor
  · rw [henv]
    rfl
  · have hcomponents : disk.workingPath.components =
        .root :: disk.workingDirectory.reverse.map Component.name :=
      Path.components_ofComponents_root hplain
    rw [henv, hcomponents, Node.walk_cons_eq_ok_iff]
    exact ⟨[], Node.step_eq_ok_iff.mpr ⟨hworking, .root⟩, hwalk⟩

/-- What an argument spells leads where it leads from the working directory's path. -/
theorem walk_join_written {env : Environment} {disk : Disk} (hstarts : env.StartsAt disk)
    {path : Path} {location : Location}
    (h : disk.tree.walk disk.workingDirectory path.components = .ok location) :
    disk.tree.walk disk.workingDirectory (env.workingDirectory.join path).components =
      .ok location := by
  cases hpath : path.isAbsolute with
  | true =>
      unfold Path.join
      rw [if_pos hpath]
      exact h
  | false =>
      rw [Path.components_join_of_isAbsolute hstarts.isAbsolute hpath,
        Node.walk_append_eq_ok_iff]
      exact ⟨disk.workingDirectory, hstarts.leads, Node.walk_inner hpath h⟩

/-- **Normalization keeps the node that is named.** Let the working directory be a directory. If a
path leads to a node, so does its normalized form. If what an argument spells leads to a file, the
resolved argument leads to this file, and it opens to the file's bytes if its spelling is
accepted. -/
theorem normalize_keeps_node (disk : Disk)
    (hworking : disk.tree.sight disk.workingDirectory = .directory) :
    (∀ (path : Path) (location : Location) (node : Node),
      disk.Names path location node → disk.Names path.normalize location node) ∧
    ∀ (env : Environment) (argument : Text), env.StartsAt disk →
      ∀ (location : Location) (content : Bytes),
        disk.Names (env.written argument) location (.file content) →
          disk.Names (env.resolve argument) location (.file content) ∧
          (Disk.checkSpelling (env.resolve argument) = .ok () →
            disk.openFile (env.resolve argument) = .ok content) := by
  constructor
  · intro path location node hpath
    exact ⟨Node.walk_normalize hworking hpath.1, hpath.2⟩
  · intro env argument hstarts location content hwritten
    have hwalk : disk.tree.walk disk.workingDirectory (env.resolve argument).components =
        .ok location :=
      Node.walk_normalize hworking (walk_join_written hstarts hwritten.1)
    have hfile : disk.tree.sight location = .file content :=
      Node.sight_eq_file_iff.mpr hwritten.2
    refine ⟨⟨hwalk, hwritten.2⟩, fun hspelling => ?_⟩
    have hcanonical : (env.resolve argument).IsCanonical :=
      Path.isCanonical_normalize (Path.isAbsolute_join hstarts.isAbsolute)
    -- The root is a directory, so the way to a file has a name.
    have hroot : (env.resolve argument).components ≠ [.root] := by
      intro hroot
      rw [hroot] at hwalk
      obtain ⟨-, hleads⟩ := Node.step_eq_ok_iff.mp (Node.walk_singleton_eq_ok_iff.mp hwalk)
      cases hleads
      have hdirectory : disk.tree.sight [] = .directory :=
        Node.sight_of_sight_append disk.workingDirectory (by rw [List.append_nil, hworking])
      rw [hdirectory] at hfile
      exact nomatch hfile
    exact Disk.openFile_eq_ok_iff.mpr
      ⟨hspelling, Disk.namesDirectory_of_isCanonical hcanonical hroot, location, hwalk, hfile⟩

/-! ## §3. A tree with a detour. -/

/-- A directory `docs`, where relative paths start, and a directory `yaml` with a file and a
directory in it. -/
def siblingDisk : Disk where
  tree := .directory
    [(Utf8.encode "docs".toList, .directory []),
      (Utf8.encode "yaml".toList, .directory
        [(Utf8.encode "old".toList, .directory []),
          (Utf8.encode "a.yaml".toList, .file (Utf8.encode "### A\n".toList))])]
  workingDirectory := [Utf8.encode "docs".toList]

/-- Documents lie in the working directory and YAML files one directory above. -/
def siblingEnvironment : Environment where
  workingDirectory := siblingDisk.workingPath
  sourceDirectory := .ofText ".".toList
  root := "..".toList
  markers := .default

/-- A path and an argument that go into a directory and out of it again. -/
theorem normalize_keeps_node_sibling :
    siblingDisk.tree.sight siblingDisk.workingDirectory = .directory ∧
    siblingEnvironment.StartsAt siblingDisk ∧
    siblingDisk.Names (Path.ofText "./../../yaml//old/..".toList).normalize
      [Utf8.encode "yaml".toList] (.directory
        [(Utf8.encode "old".toList, .directory []),
          (Utf8.encode "a.yaml".toList, .file (Utf8.encode "### A\n".toList))]) ∧
    siblingEnvironment.resolve "yaml/old/../a.yaml".toList = .ofText "/yaml/a.yaml".toList ∧
    siblingDisk.Names (siblingEnvironment.resolve "yaml/old/../a.yaml".toList)
      [Utf8.encode "a.yaml".toList, Utf8.encode "yaml".toList]
      (.file (Utf8.encode "### A\n".toList)) ∧
    siblingDisk.openFile (siblingEnvironment.resolve "yaml/old/../a.yaml".toList) =
      .ok (Utf8.encode "### A\n".toList) := by
  have hworking : siblingDisk.tree.sight siblingDisk.workingDirectory = .directory := rfl
  have hstarts : siblingEnvironment.StartsAt siblingDisk :=
    startsAt_of_workingPath rfl hworking (by decide +kernel)
  obtain ⟨hpaths, hfiles⟩ := normalize_keeps_node siblingDisk hworking
  obtain ⟨hnames, hopens⟩ := hfiles siblingEnvironment "yaml/old/../a.yaml".toList hstarts
    [Utf8.encode "a.yaml".toList, Utf8.encode "yaml".toList] (Utf8.encode "### A\n".toList)
    ⟨by decide +kernel, rfl⟩
  exact ⟨hworking, hstarts, hpaths _ _ _ ⟨by decide +kernel, rfl⟩, by decide +kernel, hnames,
    hopens (by decide +kernel)⟩

end Environment

end YamlDocs
