/-
  YamlDocs.Proofs.Document.Dependency
  ────────────────────────────────
  **DEPENDENCIES ARE SOUND.**

  The targets of a document are what its well-formed directives outside
  literal blocks resolve to; no file system is asked for them.  All that an
  expansion takes from the files are the bytes at its targets
  (`expand_congr`), and all that it records and reports is settled by which of
  them can be read (`expand_trace_congr`): what a file contains never
  leads to another file.  After a successful expansion the recorded
  dependencies are the targets, spelled alike, because what a directive
  resolves to is normalized.
-/
import YamlDocs.Document.Target
import YamlDocs.Proofs.Document.Failure
import YamlDocs.Proofs.Path.Normal

namespace YamlDocs

/-! ## §1. The targets of a document, by position. -/

theorem outsideLines_cons (block : LiteralBlock) (number : Nat) (line : Text)
    (rest : List Text) :
    outsideLines block number (line :: rest) =
      (if block.contains line then [] else [(number, line)]) ++
        outsideLines (block.next line) (number + 1) rest := by
  rw [outsideLines]
  unfold LiteralBlock.next
  cases block.contains line <;> rfl

theorem mem_outsideLines_iff (lines : List Text) :
    ∀ (block : LiteralBlock) (number : Nat) (placed : Nat × Text),
      placed ∈ outsideLines block number lines ↔
        ∃ i, lines[i]? = some placed.2 ∧ placed.1 = number + i ∧
          ((lines.take i).foldl LiteralBlock.next block).contains placed.2 = false := by
  induction lines with
  | nil => intro block number placed; simp [outsideLines]
  | cons line rest ih =>
      intro block number placed
      rw [outsideLines_cons, List.mem_append, ih]
      constructor
      · intro h
        rcases h with hmem | ⟨i, hline, hnumber, hout⟩
        · split at hmem
          case isTrue => exact nomatch hmem
          case isFalse hout =>
            obtain rfl := List.mem_singleton.mp hmem
            exact ⟨0, rfl, rfl, Bool.eq_false_iff.mpr hout⟩
        · exact ⟨i + 1, hline, by omega, hout⟩
      · intro h
        obtain ⟨i, hline, hnumber, hout⟩ := h
        cases i with
        | zero =>
            obtain ⟨number', line'⟩ := placed
            obtain rfl : line = line' := Option.some.inj hline
            obtain rfl : number' = number := hnumber
            have hout : block.contains line = false := hout
            refine Or.inl ?_
            rw [hout]
            exact List.mem_singleton_self _
        | succ i => exact Or.inr ⟨i, hline, by omega, hout⟩

namespace Environment

theorem target?_eq_some_iff (env : Environment) (document : Path) (number : Nat) (line : Text)
    (path : Path) :
    env.target? document number line = some path ↔
      ∃ indent arguments argument, Directive.match? line = some (indent, arguments) ∧
        Text.words arguments = [argument] ∧ path = env.resolve argument := by
  unfold target? Directive.parse
  cases hmatch : Directive.match? line with
  | none => simp
  | some found =>
      obtain ⟨indent, arguments⟩ := found
      match hwords : Text.words arguments with
      | [] => simp [hwords]
      | [argument] => simp [hwords, eq_comm]
      | first :: second :: rest => simp [hwords]

/-- **The targets of a document are those of its active lines.** -/
theorem mem_targets_iff (env : Environment) (document : Path) (source : Text) (path : Path) :
    path ∈ env.targets document source ↔ ∃ i, TargetAt env (Text.lines source) i path := by
  unfold targets
  rw [List.mem_filterMap]
  constructor
  · intro h
    obtain ⟨placed, hplaced, htarget⟩ := h
    obtain ⟨i, hline, -, hout⟩ := (mem_outsideLines_iff _ _ _ placed).mp hplaced
    obtain ⟨indent, arguments, argument, hmatch, hwords, rfl⟩ :=
      (target?_eq_some_iff env document placed.1 placed.2 path).mp htarget
    exact ⟨i, arguments, argument, ⟨placed.2, indent, hline, hout, hmatch⟩, hwords, rfl⟩
  · intro h
    obtain ⟨i, arguments, argument, ⟨line, indent, hline, hout, hmatch⟩, hwords, rfl⟩ := h
    refine ⟨(1 + i, line), (mem_outsideLines_iff _ _ _ _).mpr ⟨i, hline, rfl, hout⟩, ?_⟩
    exact (target?_eq_some_iff env document _ line _).mpr
      ⟨indent, arguments, argument, hmatch, hwords, rfl⟩

/-! ## §2. What an expansion takes from the files. -/

/-- What an expansion does is settled by what its targets load. -/
theorem outcomes_eq_of_loadOutcome {α : Type} (view : LineOutcome → α) (files files' : FileView)
    (env : Environment) (document : Path) (source : Text)
    (h : ∀ directive : Directive, env.resolve directive.argument ∈ env.targets document source →
      view (env.loadOutcome files document directive) =
        view (env.loadOutcome files' document directive)) :
    (env.outcomes files document (Text.lines source)).map view =
      (env.outcomes files' document (Text.lines source)).map view := by
  apply List.ext_getElem?
  intro i
  rw [List.getElem?_map, List.getElem?_map, getElem?_outcomes, getElem?_outcomes]
  cases hline : (Text.lines source)[i]? with
  | none => rfl
  | some line =>
      simp only [Option.map_some]
      cases hin : (blockBefore (Text.lines source) i).contains line with
      | true => rfl
      | false =>
          cases hmatch : Directive.match? line with
          | none =>
              rw [env.outcome_of_match?_eq_none files document _ hmatch,
                env.outcome_of_match?_eq_none files' document _ hmatch]
          | some found =>
              obtain ⟨indent, arguments⟩ := found
              rw [env.outcome_of_match?_eq_some files document _ hmatch,
                env.outcome_of_match?_eq_some files' document _ hmatch]
              match hwords : Text.words arguments with
              | [] => rfl
              | [argument] =>
                  -- Only here are the files asked, and what they are asked for is a target.
                  have htarget : env.resolve argument ∈ env.targets document source :=
                    (mem_targets_iff env document source _).mpr
                      ⟨i, arguments, argument, ⟨line, indent, hline, hin, hmatch⟩, hwords, rfl⟩
                  exact congrArg some (h ⟨indent, argument, i + 1⟩ htarget)
              | _ :: _ :: _ => rfl

end Environment

theorem load_congr {files files' : FileView} {path : Path}
    (h : files.file? path = files'.file? path) (markers : MarkerSet) :
    load files markers path = load files' markers path := by
  unfold load
  rw [h]

/-- An expansion takes nothing from the files but what its targets load. -/
theorem expand_congr_load {files files' : FileView} {env : Environment} {document : Path}
    {source : Text}
    (h : ∀ path ∈ env.targets document source,
      load files env.markers path = load files' env.markers path) :
    env.expand files document source = env.expand files' document source := by
  have houtcomes := env.outcomes_eq_of_loadOutcome id files files' document source (by
    intro directive htarget
    unfold Environment.loadOutcome
    rw [h _ htarget])
  rw [List.map_id, List.map_id] at houtcomes
  rw [Environment.expand_eq, Environment.expand_eq, houtcomes]

/-- **Two runs**: file systems that agree on the targets of a document give the same expansion. -/
theorem expand_congr {files files' : FileView} {env : Environment} {document : Path}
    {source : Text}
    (h : ∀ path ∈ env.targets document source, files.file? path = files'.file? path) :
    env.expand files document source = env.expand files' document source :=
  expand_congr_load fun path hpath => load_congr (h path hpath) env.markers

/-! ## §3. What the contents of files cannot change. -/

/-- Whether a path names a regular file, and if so, whether its bytes are text. -/
def FileView.isText? (files : FileView) (path : Path) : Option Bool :=
  (files.file? path).map fun bytes => (Utf8.decode? bytes).isSome

/-- What a line does, apart from the lines that it gives. -/
def LineOutcome.trace (outcome : LineOutcome) : Except DirectiveError (List Path) :=
  outcome.map Prod.snd

/-- What is recorded and what fails does not hang on the lines that are given. -/
theorem gather_congr_trace (outcomes : List LineOutcome) :
    ∀ outcomes' : List LineOutcome,
      outcomes.map LineOutcome.trace = outcomes'.map LineOutcome.trace →
      (gather outcomes).1 = (gather outcomes').1 ∧
        ∀ error, (gather outcomes).2 = .error error ↔ (gather outcomes').2 = .error error := by
  induction outcomes with
  | nil =>
      intro outcomes' h
      obtain rfl := List.map_eq_nil_iff.mp h.symm
      exact ⟨rfl, fun error => Iff.rfl⟩
  | cons outcome rest ih =>
      intro outcomes' h
      obtain ⟨outcome', rest', rfl, htrace, hrest⟩ := List.map_eq_cons_iff.mp h.symm
      obtain ⟨hpaths, herrors⟩ := ih rest' hrest.symm
      match outcome, outcome', htrace with
      | .error error, .error error', htrace =>
          obtain rfl : error' = error := Except.error.inj htrace
          exact ⟨rfl, fun error => Iff.rfl⟩
      | .ok (lines, paths), .ok (lines', paths'), htrace =>
          obtain rfl : paths' = paths := Except.ok.inj htrace
          refine ⟨congrArg (paths' ++ ·) hpaths, fun error => ?_⟩
          show (gather rest).2.map (lines ++ ·) = _ ↔ (gather rest').2.map (lines' ++ ·) = _
          rw [map_eq_error_iff, map_eq_error_iff]
          exact herrors error

theorem trace_loadOutcome_congr {files files' : FileView} {env : Environment} {document : Path}
    {directive : Directive}
    (h : files.isText? (env.resolve directive.argument) =
      files'.isText? (env.resolve directive.argument)) :
    (env.loadOutcome files document directive).trace =
      (env.loadOutcome files' document directive).trace := by
  unfold FileView.isText? at h
  unfold Environment.loadOutcome load
  cases hfile : files.file? (env.resolve directive.argument) with
  | none =>
      rw [hfile] at h
      rw [Option.map_eq_none_iff.mp h.symm]
  | some bytes =>
      rw [hfile] at h
      obtain ⟨bytes', hfile', htext⟩ := Option.map_eq_some_iff.mp h.symm
      have htext : (Utf8.decode? bytes').isSome = (Utf8.decode? bytes).isSome := htext
      rw [hfile']
      simp only
      cases hbytes : Utf8.decode? bytes with
      | none =>
          rw [hbytes, Option.isSome_none, Option.isSome_eq_false_iff,
            Option.isNone_iff_eq_none] at htext
          rw [htext]
      | some content =>
          rw [hbytes, Option.isSome_some] at htext
          obtain ⟨content', hbytes'⟩ := Option.isSome_iff_exists.mp htext
          rw [hbytes']
          rfl

/-- **Contents lead nowhere**: whichever texts the targets hold and whatever stands elsewhere, the
same paths are recorded and the same failure is reported. -/
theorem expand_trace_congr {files files' : FileView} {env : Environment} {document : Path}
    {source : Text}
    (h : ∀ path ∈ env.targets document source, files.isText? path = files'.isText? path) :
    (env.expand files document source).1 = (env.expand files' document source).1 ∧
      ∀ error, (env.expand files document source).2 = .error error ↔
        (env.expand files' document source).2 = .error error := by
  have houtcomes := env.outcomes_eq_of_loadOutcome LineOutcome.trace files files' document source
    (fun directive htarget => trace_loadOutcome_congr (h _ htarget))
  obtain ⟨hpaths, herrors⟩ := gather_congr_trace _ _ houtcomes
  constructor
  · rw [Environment.expand_eq, Environment.expand_eq]
    exact congrArg env.recordAll hpaths
  · intro error
    rw [Environment.expand_eq_error_iff_gather, Environment.expand_eq_error_iff_gather]
    exact herrors error

/-! ## §4. What is recorded, spelling included. -/

/-- A path that normalization gave. -/
def Path.IsNormalized (path : Path) : Prop := ∃ written : Path, written.normalize = path

theorem isNormalized_resolve (env : Environment) (argument : Text) :
    (env.resolve argument).IsNormalized := ⟨_, rfl⟩

theorem Path.IsNormalized.eq_of_components_eq {p q : Path} (hp : p.IsNormalized)
    (hq : q.IsNormalized) (h : p.components = q.components) : p = q := by
  obtain ⟨written, rfl⟩ := hp
  obtain ⟨written', rfl⟩ := hq
  exact Path.normalize_eq_of_components_eq h

/-- Among normalized paths, recording adds exactly the given ones. -/
theorem mem_toList_recordAll (paths : List Path) (path : Path) :
    ∀ env : Environment, (∀ member ∈ env.dependencies.toList, member.IsNormalized) →
      (∀ member ∈ paths, member.IsNormalized) →
      (path ∈ (env.recordAll paths).dependencies.toList ↔
        path ∈ env.dependencies.toList ∨ path ∈ paths) := by
  induction paths with
  | nil => intro env _ _; simp
  | cons first rest ih =>
      intro env hbefore hall
      obtain ⟨hfirst, hrest⟩ := List.forall_mem_cons.mp hall
      have hinsert : ∀ member, member ∈ (env.dependencies.insert first).toList ↔
          member = first ∨ member ∈ env.dependencies.toList :=
        PathSet.mem_toList_insert fun member hmember heq =>
          hfirst.eq_of_components_eq (hbefore member hmember) heq
      show path ∈ ((env.record first).recordAll rest).dependencies.toList ↔ _
      rw [ih (env.record first) ?_ hrest]
      · show path ∈ (env.dependencies.insert first).toList ∨ _ ↔ _
        rw [hinsert, List.mem_cons, or_comm (a := path = first), or_assoc]
      · intro member hmember
        rcases (hinsert member).mp hmember with rfl | hmember
        · exact hfirst
        · exact hbefore member hmember

/-- **After a successful expansion exactly the targets are recorded.** -/
theorem mem_dependencies_expand {files : FileView} {env after : Environment} {document : Path}
    {source text : Text} (hempty : env.dependencies.toList = [])
    (hok : env.expand files document source = (after, .ok text)) (path : Path) :
    path ∈ after.dependencies.toList ↔ path ∈ env.targets document source := by
  have hclear : ∀ i fault, ¬ FaultAt files env (Text.lines source) i fault := by
    intro i fault hfault
    -- The first fault would have ended the expansion.
    obtain ⟨first, fault, hfault, hfirst⟩ := exists_first_fault ⟨i, fault, hfault⟩
    have herror := (expand_eq_error_iff files env document source _).mpr
      ⟨first, fault, hfault, hfirst, rfl⟩
    rw [hok] at herror
    exact nomatch herror
  have hmem : ∀ member, member ∈ (gather (env.outcomes files document (Text.lines source))).1 ↔
      member ∈ env.targets document source := by
    intro member
    rw [mem_gather_outcomes_iff, Environment.mem_targets_iff]
    constructor
    · intro h
      obtain ⟨i, htarget, -⟩ := h
      exact ⟨i, htarget⟩
    · intro h
      obtain ⟨i, htarget⟩ := h
      exact ⟨i, htarget, fun j _ => hclear j⟩
  have hnormal : ∀ member ∈ (gather (env.outcomes files document (Text.lines source))).1,
      member.IsNormalized := by
    intro member hmember
    obtain ⟨i, arguments, argument, -, -, rfl⟩ :=
      (Environment.mem_targets_iff env document source member).mp ((hmem member).mp hmember)
    exact isNormalized_resolve env argument
  rw [Environment.expand_eq] at hok
  obtain ⟨rfl, -⟩ := Prod.mk.inj hok
  rw [mem_toList_recordAll _ path env (by simp [hempty]) hnormal, hempty, hmem]
  simp

/-! ## §5. Soundness. -/

/-- **Dependencies are sound.** The targets of a document depend neither on the files nor on what
was recorded. File systems that agree on them give the same expansion and record the same paths.
After a successful expansion that begins without dependencies the targets are recorded and nothing
else, so no file apart from these can change it. And whichever texts the targets hold, the same
paths are recorded and the same failure is reported. -/
theorem expand_depends_on_targets (env : Environment) (document : Path) (source : Text) :
    (∀ dependencies : PathSet,
      { env with dependencies }.targets document source = env.targets document source) ∧
    (∀ files files' : FileView,
      (∀ path ∈ env.targets document source, files.file? path = files'.file? path) →
      env.expand files document source = env.expand files' document source) ∧
    (∀ (files : FileView) (after : Environment) (text : Text),
      env.dependencies.toList = [] → env.expand files document source = (after, .ok text) →
      (∀ path, path ∈ after.dependencies.toList ↔ path ∈ env.targets document source) ∧
      ∀ files' : FileView,
        (∀ path ∈ after.dependencies.toList, files.file? path = files'.file? path) →
        env.expand files' document source = (after, .ok text)) ∧
    (∀ files files' : FileView,
      (∀ path ∈ env.targets document source, files.isText? path = files'.isText? path) →
      (env.expand files document source).1 = (env.expand files' document source).1 ∧
        ∀ error, (env.expand files document source).2 = .error error ↔
          (env.expand files' document source).2 = .error error) := by
  refine ⟨fun dependencies => rfl, fun files files' h => expand_congr h, ?_,
    fun files files' h => expand_trace_congr h⟩
  intro files after text hempty hok
  have hmem := mem_dependencies_expand hempty hok
  refine ⟨hmem, fun files' h => ?_⟩
  rw [← hok]
  exact (expand_congr fun path hpath => h path ((hmem path).mpr hpath)).symm

/-! ## §6. Three views of one document. -/

/-- The file of `singleFile` among others: every other path names an empty file. -/
def crowdedFiles : FileView := fun path =>
  if path = .ofText "/docs/a.yaml".toList then singleFile path else .ok []

/-- A file whose documentation is itself a directive. -/
def selfNamingFile : FileView := fun path =>
  if path = .ofText "/docs/a.yaml".toList then
    .ok (Utf8.encode "### .. autoyaml:: b.yaml".toList)
  else .error .missing

/-- Files that the document does not name change nothing, and a directive inside of its file is
not followed. -/
theorem expand_depends_on_targets_docs :
    docsEnvironment.expand crowdedFiles (.ofText "index".toList) intactDocument =
      docsEnvironment.expand singleFile (.ofText "index".toList) intactDocument ∧
    (∀ path, path ∈ (docsEnvironment.expand singleFile (.ofText "index".toList)
        intactDocument).1.dependencies.toList ↔
      path = docsEnvironment.resolve "a.yaml".toList) ∧
    (docsEnvironment.expand selfNamingFile (.ofText "index".toList) intactDocument).1 =
      (docsEnvironment.expand singleFile (.ofText "index".toList) intactDocument).1 := by
  obtain ⟨-, hagree, hrecorded, htrace⟩ :=
    expand_depends_on_targets docsEnvironment (.ofText "index".toList) intactDocument
  have htargets : docsEnvironment.targets (.ofText "index".toList) intactDocument =
      [docsEnvironment.resolve "a.yaml".toList] := by decide +kernel
  have hok : (docsEnvironment.expand singleFile (.ofText "index".toList) intactDocument).2 =
      .ok "A".toList := by decide +kernel
  have hrun : docsEnvironment.expand singleFile (.ofText "index".toList) intactDocument =
      ((docsEnvironment.expand singleFile (.ofText "index".toList) intactDocument).1,
        .ok "A".toList) := by rw [← hok]
  rw [htargets] at hagree hrecorded htrace
  obtain ⟨hmem, -⟩ := hrecorded singleFile _ _ rfl hrun
  refine ⟨hagree crowdedFiles singleFile ?_, ?_, (htrace selfNamingFile singleFile ?_).1⟩
  · intro path hpath
    obtain rfl := List.mem_singleton.mp hpath
    decide +kernel
  · intro path
    exact (hmem path).trans List.mem_singleton
  · intro path hpath
    obtain rfl := List.mem_singleton.mp hpath
    decide +kernel

end YamlDocs
