/-
  YamlDocs.Proofs.Document.Root
  ────────────────────────────────
  **ARGUMENTS STAY UNDER THE ROOT.**

  The base of an environment is its root as seen from the source directory.
  An argument that never climbs above where it starts leads to the base and
  from there on by its own names (`resolve_under_base`), as long as the root
  is not empty.  An empty root leaves the slash behind it in front, and the
  argument is looked up from the root of the file system
  (`empty_root_is_escaped`).
-/
import YamlDocs.Document.Environment
import YamlDocs.Proofs.Path.Cancel
import YamlDocs.Proofs.Path.Join
import YamlDocs.Proofs.Path.Normal

namespace YamlDocs

/-! ## §1. The base. -/

/-- A path as seen from the working directory; the empty path is refused. -/
def Path.absolute? (workingDirectory path : Path) : Option Path :=
  if path.bytes = [] then none else some (workingDirectory.join path)

theorem Path.absolute?_of_ne_nil {workingDirectory path : Path} (h : path.bytes ≠ []) :
    absolute? workingDirectory path = some (workingDirectory.join path) :=
  if_neg h

namespace Environment

/-- The path of the root, as it is written. -/
def writtenBase (env : Environment) : Path := env.sourceDirectory.join (.ofText env.root)

/-- The directory under which arguments are looked up. -/
def base? (env : Environment) : Option Path :=
  (Path.absolute? env.workingDirectory env.writtenBase).map Path.normalize

/-! ## §2. Written paths. -/

section Written

variable {env : Environment} {argument : Text}

theorem ofText_root_ne_nil (hroot : env.root ≠ []) : (Path.ofText env.root).bytes ≠ [] :=
  Utf8.encode_ne_nil hroot

/-- An argument stands behind the root and a slash. -/
theorem written_eq (hroot : env.root ≠ []) (argument : Text) :
    env.written argument = ⟨env.writtenBase.bytes ++ Path.slash :: (Path.ofText argument).bytes⟩ := by
  unfold written writtenBase
  rw [Path.ofText_append_slash, Path.join_append (ofText_root_ne_nil hroot)]

/-- What an argument spells is never empty, so it can be made absolute. -/
theorem written_bytes_ne_nil (env : Environment) (argument : Text) :
    (env.written argument).bytes ≠ [] := by
  unfold written
  rw [Path.ofText_append_slash]
  exact Path.join_bytes_ne_nil (by simp)

/-- **Resolving does not fail.** -/
theorem absolute?_written (env : Environment) (argument : Text) :
    (Path.absolute? env.workingDirectory (env.written argument)).map Path.normalize =
      some (env.resolve argument) := by
  rw [Path.absolute?_of_ne_nil (written_bytes_ne_nil env argument)]
  rfl

/-- **The components of an argument stand behind those of the root.** -/
theorem components_join_written (hroot : env.root ≠ []) (argument : Text) :
    (env.workingDirectory.join (env.written argument)).components =
      (env.workingDirectory.join env.writtenBase).components ++ (Path.ofText argument).inner := by
  have hbase : env.writtenBase.bytes ≠ [] := Path.join_bytes_ne_nil (ofText_root_ne_nil hroot)
  rw [written_eq hroot, Path.join_append hbase,
    Path.components_append_slash (Path.join_bytes_ne_nil hbase)]

end Written

/-! ## §3. Resolved paths. -/

/-- **Arguments stay under the root.** Let the root be not empty. Both the base and what an argument
resolves to exist. If no beginning of the argument's components has more `..` than names, the
resolved path has the components of the base and then those of the argument, with the dots and
slashes left out and each `..` cancelled. -/
theorem resolve_under_base (env : Environment) (argument : Text)
    (hworking : env.workingDirectory.isAbsolute = true) (hroot : env.root ≠ [])
    (hinside : StaysInside (Path.ofText argument).components) :
    ∃ base rest, env.base? = some base ∧
      (Path.absolute? env.workingDirectory (env.written argument)).map Path.normalize =
        some (env.resolve argument) ∧
      Relation.ReflTransGen CancelStep
        ((Path.ofText argument).components.filter fun c => c ≠ .root ∧ c ≠ .here) rest ∧
      (∀ c ∈ rest, c.isName = true) ∧
      (env.resolve argument).components = base.components ++ rest := by
  have hleading : ∀ c ∈ (Path.ofText argument).leading, c.isName = false := by
    intro c hc
    rcases Path.mem_leading hc with rfl | rfl
    · rfl
    · rfl
  have hinner : StaysInside (Path.ofText argument).inner := StaysInside.of_append hleading hinside
  obtain ⟨rest, hnames, hcancel, hfold⟩ := foldl_pushComponent_inside
    (fun c hc => Path.ne_root_and_ne_here_of_mem_inner hc) hinner
    ((env.workingDirectory.join env.writtenBase).components.foldl Path.pushComponent [])
  have hne : env.writtenBase.bytes ≠ [] := Path.join_bytes_ne_nil (ofText_root_ne_nil hroot)
  have hbase : env.base? = some (env.workingDirectory.join env.writtenBase).normalize := by
    unfold base?
    rw [Path.absolute?_of_ne_nil hne]
    rfl
  refine ⟨_, rest, hbase, absolute?_written env argument, ?_, hnames, ?_⟩
  · rw [Path.filter_components]
    exact hcancel
  · unfold resolve
    rw [Path.components_normalize_of_isAbsolute (Path.isAbsolute_join hworking),
      Path.components_normalize_of_isAbsolute (Path.isAbsolute_join hworking),
      components_join_written hroot]
    unfold Path.normalComponents
    rw [List.foldl_append, hfold, List.reverse_append, List.reverse_reverse]

/-! ## §4. Two roots. -/

/-- An environment in `/work` with the given root, seen from the directory `docs` there. -/
def workEnvironment (root : Text) : Environment where
  workingDirectory := .ofText "/work".toList
  sourceDirectory := .ofText "docs".toList
  root := root
  markers := .default

/-- Slashes in front and dots are left out, and `..` takes back a name of the argument only. -/
theorem resolve_under_base_work :
    (workEnvironment "../yaml/".toList).base? = some (.ofText "/work/yaml".toList) ∧
    StaysInside (Path.ofText "//a/./b/../c.yaml".toList).components ∧
    ∃ rest, (∀ c ∈ rest, c.isName = true) ∧
      ((workEnvironment "../yaml/".toList).resolve "//a/./b/../c.yaml".toList).components =
        (Path.ofText "/work/yaml".toList).components ++ rest := by
  have hbase : (workEnvironment "../yaml/".toList).base? = some (.ofText "/work/yaml".toList) := by
    decide
  obtain ⟨base, rest, hsome, -, -, hnames, hcomponents⟩ :=
    resolve_under_base (workEnvironment "../yaml/".toList) "//a/./b/../c.yaml".toList (by decide)
      (by decide) (by decide)
  obtain rfl : .ofText "/work/yaml".toList = base := Option.some.inj (hbase.symm.trans hsome)
  exact ⟨hbase, by decide, rest, hnames, hcomponents⟩

/-- With an empty root the base is the source directory, but an argument that never climbs is
looked up from the root of the file system. -/
theorem empty_root_is_escaped :
    (workEnvironment []).base? = some (.ofText "/work/docs".toList) ∧
    StaysInside (Path.ofText "config/app.yaml".toList).components ∧
    (workEnvironment []).resolve "config/app.yaml".toList = .ofText "/config/app.yaml".toList ∧
    ¬ (Path.ofText "/work/docs".toList).components <+:
      ((workEnvironment []).resolve "config/app.yaml".toList).components := by
  exact ⟨by decide, by decide, by decide, by decide⟩

end Environment

end YamlDocs
