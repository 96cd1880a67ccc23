/-
  YamlDocs.Proofs.Document.History
  ────────────────────────────────
  **WHAT STAYS TRUE OF AN ENVIRONMENT.**

  A history is any list of operations, each with the working directory and
  the files that it finds; in between anything may happen to the files.  An
  operation records some paths, one after the other, and changes nothing
  else (`perform_eq`).  Which ones it records does not depend on what was
  recorded before, so a whole history is one log of paths (`behindAll_eq`):

      dependencies  =  the empty set and the log put into it

  Everything else is read off the log: the set only grows, it is strictly
  increasing, it lists each class of equal paths by the first spelling in
  the log, and the paths of the log are canonical unless one was recorded
  from outside (`environment_invariant`).
-/
import YamlDocs.Document.Session
import YamlDocs.Proofs.Document.Failure
import YamlDocs.Proofs.Document.Resolution

namespace YamlDocs

/-! ## §1. Histories. -/

/-- An operation and what it finds when it is performed. -/
structure TimedOperation where
  workingDirectory : Path
  files : FileView
  operation : Operation

namespace Environment

/-- The environment as it is used from a working directory. -/
def seenFrom (env : Environment) (workingDirectory : Path) : Environment :=
  { env with workingDirectory }

/-- The environment behind an operation. -/
def behind (env : Environment) (step : TimedOperation) : Environment :=
  ((env.seenFrom step.workingDirectory).perform step.files step.operation).1

/-- The environment behind a history. -/
def behindAll (env : Environment) (history : List TimedOperation) : Environment :=
  history.foldl behind env

/-- The paths that an operation records, in order. -/
def recordings (files : FileView) (env : Environment) : Operation → List Path
  | .expand document source => (gather (env.outcomes files document (Text.lines source))).1
  | .directive document line text => (gather [env.outcome files document line false text]).1
  | .record path => [path]
  | .resolve _ => []
  | .load _ => []
  | .extract _ _ => []

/-- The paths that the operations of a history record, in order. -/
def log (env : Environment) (history : List TimedOperation) : List Path :=
  history.flatMap fun step =>
    (env.seenFrom step.workingDirectory).recordings step.files step.operation

/-! ## §2. One operation. -/

/-- **What an operation does to the environment**: it records some paths. -/
theorem perform_eq (files : FileView) (env : Environment) (operation : Operation) :
    (env.perform files operation).1 = env.recordAll (env.recordings files operation) := by
  cases operation with
  | expand document source =>
      rw [perform, recordings, expand_eq]
      generalize gather _ = all
      obtain ⟨paths, result⟩ := all
      cases result <;> rfl
  | resolve argument => rfl
  | directive document line text =>
      rw [perform, recordings, outcome, if_neg Bool.false_ne_true]
      cases Directive.parse document line text with
      | error error => rfl
      | ok directive? =>
          cases directive? with
          | none => rfl
          | some directive =>
              simp only [run, loadOutcome]
              cases load files env.markers (env.resolve directive.argument) <;> rfl
  | load path =>
      rw [perform]
      cases YamlDocs.load files env.markers path <;> rfl
  | extract source path => rfl
  | record path => rfl

/-- What an operation records does not depend on what was recorded before. -/
theorem recordings_congr {env other : Environment} (files : FileView)
    (h : { env with dependencies := other.dependencies } = other) (operation : Operation) :
    env.recordings files operation = other.recordings files operation := by
  rw [← h]
  cases operation <;> rfl

/-! ## §3. All operations. -/

theorem behind_eq (env : Environment) (step : TimedOperation) :
    env.behind step =
      { env.seenFrom step.workingDirectory with
        dependencies := env.dependencies.insertAll
          ((env.seenFrom step.workingDirectory).recordings step.files step.operation) } := by
  unfold behind
  rw [perform_eq, recordAll_eq]
  rfl

/-- The log of a history does not depend on where it begins. -/
theorem log_behind (env : Environment) (step : TimedOperation) (history : List TimedOperation) :
    (env.behind step).log history = env.log history := by
  unfold log
  refine congrArg List.flatten (List.map_congr_left fun later _ => ?_)
  rw [behind_eq]
  exact recordings_congr later.files rfl later.operation

/-- **A history is a log of paths**: the dependencies are those before and the log, and nothing else
changes but the working directory. -/
theorem behindAll_eq (history : List TimedOperation) :
    ∀ env : Environment, ∃ workingDirectory,
      env.behindAll history =
        { env with
          workingDirectory
          dependencies := env.dependencies.insertAll (env.log history) } := by
  induction history with
  | nil => intro env; exact ⟨env.workingDirectory, rfl⟩
  | cons step rest ih =>
      intro env
      obtain ⟨workingDirectory, heq⟩ := ih (env.behind step)
      refine ⟨workingDirectory, ?_⟩
      show (env.behind step).behindAll rest = _
      -- Behind the first operation the rest logs what it would log before it.
      rw [heq, log_behind, behind_eq]
      unfold log
      rw [List.flatMap_cons, PathSet.insertAll_append]
      rfl

theorem dependencies_behindAll (env : Environment) (history : List TimedOperation) :
    (env.behindAll history).dependencies = env.dependencies.insertAll (env.log history) := by
  obtain ⟨workingDirectory, heq⟩ := behindAll_eq history env
  rw [heq]

theorem behindAll_append (env : Environment) (first second : List TimedOperation) :
    env.behindAll (first ++ second) = (env.behindAll first).behindAll second :=
  List.foldl_append

/-! ## §4. Sessions. -/

theorem workingDirectory_perform (files : FileView) (env : Environment) (operation : Operation) :
    (env.perform files operation).1.workingDirectory = env.workingDirectory := by
  rw [perform_eq, recordAll_eq]

/-- **A session shows histories**: the dependencies behind each of its steps are those of a history
of its own operations, all of them performed from one working directory. -/
theorem exists_history_of_mem_runSession (session : List SessionStep) :
    ∀ (disk : Disk) (env : Environment), ∀ snapshot ∈ runSession disk env session,
      ∃ history : List TimedOperation,
        snapshot.2 = (env.behindAll history).dependencies ∧
        ∀ step ∈ history, step.workingDirectory = env.workingDirectory ∧
          .perform step.operation ∈ session := by
  induction session with
  | nil => intro disk env snapshot hmem; exact nomatch hmem
  | cons first rest ih =>
      intro disk env snapshot hmem
      -- A change of the files is no operation: the history is empty or one of the rest.
      have hchange : ∀ changed : Disk,
          snapshot ∈ (none, env.dependencies) :: runSession changed env rest →
          ∃ history : List TimedOperation,
            snapshot.2 = (env.behindAll history).dependencies ∧
            ∀ step ∈ history, step.workingDirectory = env.workingDirectory ∧
              .perform step.operation ∈ first :: rest := by
        intro changed hchanged
        rcases List.mem_cons.mp hchanged with rfl | hrest
        · exact ⟨[], rfl, fun _ hstep => nomatch hstep⟩
        · obtain ⟨history, hdependencies, hsteps⟩ := ih changed env snapshot hrest
          exact ⟨history, hdependencies, fun step hstep =>
            ⟨(hsteps step hstep).1, List.mem_cons_of_mem _ (hsteps step hstep).2⟩⟩
      cases first with
      | write path content => exact hchange _ hmem
      | makeDirectory path => exact hchange _ hmem
      | delete path => exact hchange _ hmem
      | perform operation =>
          have hmine : (.perform operation : SessionStep) ∈ .perform operation :: rest :=
            List.mem_cons_self
          rcases List.mem_cons.mp hmem with rfl | hrest
          · refine ⟨[⟨env.workingDirectory, disk.view, operation⟩], rfl, fun step hstep => ?_⟩
            obtain rfl := List.mem_singleton.mp hstep
            exact ⟨rfl, hmine⟩
          · obtain ⟨history, hdependencies, hsteps⟩ :=
              ih disk (env.perform disk.view operation).1 snapshot hrest
            refine ⟨⟨env.workingDirectory, disk.view, operation⟩ :: history, hdependencies,
              List.forall_mem_cons.mpr ⟨⟨rfl, hmine⟩, fun step hstep => ⟨?_, ?_⟩⟩⟩
            · exact (hsteps step hstep).1.trans (workingDirectory_perform disk.view env operation)
            · exact List.mem_cons_of_mem _ (hsteps step hstep).2

/-! ## §5. What is recorded is canonical. -/

/-- Apart from a path that is recorded from outside, what is recorded was resolved. -/
theorem exists_resolve_of_mem_recordings {files : FileView} {env : Environment}
    {operation : Operation} {path : Path} (h : path ∈ env.recordings files operation) :
    operation = .record path ∨ ∃ argument, path = env.resolve argument := by
  cases operation with
  | expand document source =>
      obtain ⟨i, ⟨arguments, argument, -, -, hpath⟩, -⟩ :=
        (mem_gather_outcomes_iff files env document (Text.lines source) path).mp h
      exact Or.inr ⟨argument, hpath⟩
  | directive document line text =>
      obtain ⟨i, lines, paths, houtcome, hmem, -⟩ := (mem_gather_iff _ path).mp h
      have hok : env.outcome files document line false text = .ok (lines, paths) :=
        (List.mem_singleton.mp (List.mem_of_getElem? houtcome)).symm
      cases hmatch : Directive.match? text with
      | none =>
          rw [env.outcome_of_match?_eq_none files document line hmatch] at hok
          obtain ⟨-, rfl⟩ := Prod.mk.inj (Except.ok.inj hok)
          exact nomatch hmem
      | some found =>
          obtain ⟨argument, -, rfl⟩ :=
            env.paths_of_outcome_eq_ok files document line hmatch hok
          exact Or.inr ⟨argument, List.mem_singleton.mp hmem⟩
  | record other =>
      obtain rfl := List.mem_singleton.mp h
      exact Or.inl rfl
  | resolve argument => exact nomatch h
  | load location => exact nomatch h
  | extract source location => exact nomatch h

/-- **The log of a history is canonical** unless a path was recorded from outside. -/
theorem isCanonical_of_mem_log {env : Environment} {history : List TimedOperation}
    (h : ∀ step ∈ history, step.workingDirectory.isAbsolute = true ∧
      ∀ path, step.operation ≠ .record path) {path : Path} (hpath : path ∈ env.log history) :
    path.IsCanonical := by
  obtain ⟨step, hstep, hmem⟩ := List.mem_flatMap.mp hpath
  obtain ⟨habsolute, hinside⟩ := h step hstep
  rcases exists_resolve_of_mem_recordings hmem with hrecord | ⟨argument, rfl⟩
  · exact absurd hrecord (hinside path)
  · exact isCanonical_resolve habsolute argument

/-! ## §6. The invariant. -/

/-- **What stays true of an environment.** Let an environment be created without dependencies and
let any history lead to another one. The source directory, the root and the markers are as they
were created. No later operation takes a dependency away. The dependencies are strictly increasing,
so no two of them are equal by components, and a path is among them exactly if it is the first in
the log with its components. A directive that fails leaves the environment as it is. If no path was
recorded from outside, every dependency is canonical. -/
theorem environment_invariant (workingDirectory sourceDirectory : Path) (root : Text)
    (markers : MarkerSet) (history : List TimedOperation) :
    let created : Environment := { workingDirectory, sourceDirectory, root, markers }
    let env := created.behindAll history
    (env.sourceDirectory = sourceDirectory ∧ env.root = root ∧ env.markers = markers) ∧
    (∀ (later : List TimedOperation), ∀ path ∈ env.dependencies.toList,
      path ∈ (created.behindAll (history ++ later)).dependencies.toList) ∧
    (env.dependencies.toList.Pairwise fun p q => compare p q = .lt) ∧
    (∀ p ∈ env.dependencies.toList, ∀ q ∈ env.dependencies.toList,
      p.components = q.components → p = q) ∧
    (∀ path, path ∈ env.dependencies.toList ↔
      (created.log history).find? (fun other => other.components = path.components) =
        some path) ∧
    (∀ (directory : Path) (files : FileView) (document : Path) (directive : Directive)
      (error : DirectiveError),
      ((env.seenFrom directory).run files document directive).2 = .error error →
      ((env.seenFrom directory).run files document directive).1 = env.seenFrom directory) ∧
    ((∀ step ∈ history, step.workingDirectory.isAbsolute = true ∧
        ∀ path, step.operation ≠ .record path) →
      ∀ path ∈ env.dependencies.toList, path.IsCanonical) := by
  intro created env
  have hset : env.dependencies = PathSet.insertAll {} (created.log history) :=
    dependencies_behindAll created history
  have hincreasing : env.dependencies.IsIncreasing := by
    rw [hset]
    exact PathSet.isIncreasing_empty.insertAll _
  have hmem : ∀ path, path ∈ env.dependencies.toList ↔
      (created.log history).find? (fun other => other.components = path.components) =
        some path := by
    intro path
    rw [hset]
    exact PathSet.mem_insertAll_iff _ path
  refine ⟨?_, ?_, hincreasing, ?_, hmem, fun _ _ _ _ _ => run_eq_of_error, ?_⟩
  · obtain ⟨directory, heq⟩ := behindAll_eq history created
    have heq : env = _ := heq
    rw [heq]
    exact ⟨rfl, rfl, rfl⟩
  · intro later path hpath
    -- Later operations put more paths in, and an increasing set keeps what it lists.
    rw [behindAll_append, dependencies_behindAll]
    exact (hincreasing.mem_toList_insertAll_iff _ path).mpr (Or.inl hpath)
  · exact fun p hp q hq => hincreasing.eq_of_components_eq hp hq
  · intro h path hpath
    exact isCanonical_of_mem_log h (List.mem_of_find?_eq_some ((hmem path).mp hpath))

/-! ## §7. One history. -/

/-- A document that expands, the same document without its file, and a line that writes the path in
another way. -/
def docsHistory : List TimedOperation :=
  [⟨.ofText "/".toList, singleFile, .expand (.ofText "index".toList) intactDocument⟩,
    ⟨.ofText "/tmp".toList, fun _ => .error .missing,
      .expand (.ofText "index".toList) brokenDocument⟩,
    ⟨.ofText "/".toList, singleFile,
      .directive (.ofText "index".toList) 1 ".. autoyaml:: x/..//a.yaml".toList⟩]

/-- All three operations together record one canonical path. -/
theorem environment_invariant_docs :
    (docsEnvironment.behindAll docsHistory).dependencies.toList =
      [.ofText "/docs/a.yaml".toList] ∧
    docsEnvironment.log docsHistory =
      [.ofText "/docs/a.yaml".toList, .ofText "/docs/a.yaml".toList] ∧
    Path.IsCanonical (.ofText "/docs/a.yaml".toList) := by
  have hcreated : Environment.mk (.ofText "/".toList) (.ofText "/docs".toList) ".".toList .default
      {} = docsEnvironment := rfl
  have hdependencies : (docsEnvironment.behindAll docsHistory).dependencies.toList =
      [.ofText "/docs/a.yaml".toList] := by decide +kernel
  obtain ⟨-, -, -, -, -, -, hcanonical⟩ := environment_invariant (.ofText "/".toList)
    (.ofText "/docs".toList) ".".toList .default docsHistory
  rw [hcreated, hdependencies] at hcanonical
  refine ⟨hdependencies, by decide +kernel, hcanonical ?_ _ (List.mem_singleton_self _)⟩
  intro step hstep
  simp only [docsHistory, List.mem_cons, List.not_mem_nil, or_false] at hstep
  rcases hstep with rfl | rfl | rfl
  · exact ⟨by decide, nofun⟩
  · exact ⟨by decide, nofun⟩
  · exact ⟨by decide, nofun⟩

/-- A path that was recorded in another spelling keeps this spelling. -/
example : (docsEnvironment.behindAll
    (⟨.ofText "/".toList, singleFile, .record (.ofText "/docs//a.yaml".toList)⟩ ::
      docsHistory)).dependencies.toList = [.ofText "/docs//a.yaml".toList] := by
  decide +kernel

end Environment

end YamlDocs
