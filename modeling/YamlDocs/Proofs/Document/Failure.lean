/-
  YamlDocs.Proofs.Document.Failure
  ────────────────────────────────
  **THE FIRST FAILURE AND THE DEPENDENCIES BEFORE IT.**

  A directive line outside literal blocks is active.  It has a fault if it
  has no argument or several, or if its argument leads to no regular file or
  to bytes that are not UTF-8; else it has a target.  An expansion fails at
  the least position with a fault and reports this fault.  Behind it the
  environment has, besides what it had before, the targets of exactly the
  active lines before the failing one (`expand_first_failure`).
-/
import YamlDocs.Proofs.Document.Run
import YamlDocs.Proofs.Path.Set
import YamlDocs.Proofs.Text.Trim
import Mathlib.Data.Nat.Find

namespace YamlDocs

/-! ## §1. Active lines, faults and targets. -/

/-- The line at position `i` stands outside every literal block and is a directive line with these
arguments. -/
def ActiveAt (lines : List Text) (i : Nat) (arguments : Text) : Prop :=
  ∃ line indent, lines[i]? = some line ∧ (blockBefore lines i).contains line = false ∧
    Directive.match? line = some (indent, arguments)

/-- What can be wrong with the arguments of a directive. -/
inductive ArgumentFault (files : FileView) (env : Environment) (arguments : Text) :
    DirectiveFault → Prop
  | missing (hwords : Text.words arguments = []) :
      ArgumentFault files env arguments .missingArgument
  | tooMany (hwords : 1 < (Text.words arguments).length) :
      ArgumentFault files env arguments .tooManyArguments
  | notAFile {argument : Text} (hwords : Text.words arguments = [argument])
      (hfile : files.isFile (env.resolve argument) = false) :
      ArgumentFault files env arguments (.unloaded (.notAFile (env.resolve argument)))
  | notUtf8 {argument : Text} {bytes : Bytes} (hwords : Text.words arguments = [argument])
      (hfile : files.file? (env.resolve argument) = some bytes)
      (hutf8 : Utf8.decode? bytes = none) :
      ArgumentFault files env arguments (.unloaded (.notUtf8 (env.resolve argument)))

/-- The line at position `i` is active and has this fault. -/
def FaultAt (files : FileView) (env : Environment) (lines : List Text) (i : Nat)
    (fault : DirectiveFault) : Prop :=
  ∃ arguments, ActiveAt lines i arguments ∧ ArgumentFault files env arguments fault

/-- The line at position `i` is active and its only argument resolves to this path. -/
def TargetAt (env : Environment) (lines : List Text) (i : Nat) (path : Path) : Prop :=
  ∃ arguments argument, ActiveAt lines i arguments ∧ Text.words arguments = [argument] ∧
    path = env.resolve argument

theorem activeAt_iff {lines : List Text} {i : Nat} {line arguments : Text}
    (hline : lines[i]? = some line) :
    ActiveAt lines i arguments ↔
      (blockBefore lines i).contains line = false ∧
        ∃ indent, Directive.match? line = some (indent, arguments) := by
  constructor
  · intro h
    obtain ⟨other, indent, hother, hout, hmatch⟩ := h
    obtain rfl : line = other := Option.some.inj (hline.symm.trans hother)
    exact ⟨hout, indent, hmatch⟩
  · intro h
    obtain ⟨hout, indent, hmatch⟩ := h
    exact ⟨line, indent, hline, hout, hmatch⟩

theorem ActiveAt.lt_length {lines : List Text} {i : Nat} {arguments : Text}
    (h : ActiveAt lines i arguments) : i < lines.length := by
  obtain ⟨line, _, hline, _⟩ := h
  exact (List.getElem?_eq_some_iff.mp hline).1

theorem FaultAt.lt_length {files : FileView} {env : Environment} {lines : List Text} {i : Nat}
    {fault : DirectiveFault} (h : FaultAt files env lines i fault) : i < lines.length := by
  obtain ⟨_, hactive, _⟩ := h
  exact hactive.lt_length

theorem TargetAt.lt_length {env : Environment} {lines : List Text} {i : Nat} {path : Path}
    (h : TargetAt env lines i path) : i < lines.length := by
  obtain ⟨_, _, hactive, _⟩ := h
  exact hactive.lt_length

/-- Among the positions with a fault there is a first one. -/
theorem exists_first_fault {files : FileView} {env : Environment} {lines : List Text}
    (h : ∃ i fault, FaultAt files env lines i fault) :
    ∃ i fault, FaultAt files env lines i fault ∧
      ∀ j, j < i → ∀ earlier, ¬ FaultAt files env lines j earlier := by
  classical
  obtain ⟨fault, hfault⟩ := Nat.find_spec h
  refine ⟨Nat.find h, fault, hfault, fun j hj earlier hearlier => ?_⟩
  exact Nat.find_min h hj ⟨earlier, hearlier⟩

/-! ## §2. One line. -/

/-- Loading is reading a text and scanning it. -/
theorem load_eq_readText (files : FileView) (markers : MarkerSet) (location : Path) :
    load files markers location =
      match files.readText location with
      | .ok text => .ok (extract markers location text)
      | .error (.unopened _) => .error (.notAFile location)
      | .error .notUtf8 => .error (.notUtf8 location) := by
  unfold load FileView.file? FileView.readText
  cases files location with
  | error error => rfl
  | ok bytes => cases hutf8 : Utf8.decode? bytes <;> simp [hutf8]

theorem load_eq_error_iff (files : FileView) (markers : MarkerSet) (location : Path)
    (error : LoadError) :
    load files markers location = .error error ↔
      (files.isFile location = false ∧ error = .notAFile location) ∨
        ∃ bytes, files.file? location = some bytes ∧ Utf8.decode? bytes = none ∧
          error = .notUtf8 location := by
  unfold load FileView.isFile
  cases files.file? location with
  | none => simp [eq_comm]
  | some bytes => cases hutf8 : Utf8.decode? bytes <;> simp [hutf8, eq_comm]

/-- What is loaded is the documentation of the text of the file. -/
theorem load_eq_ok_iff {files : FileView} {markers : MarkerSet} {location : Path}
    {buffer : Buffer} :
    load files markers location = .ok buffer ↔
      ∃ yaml, files.readText location = .ok yaml ∧ buffer = extract markers location yaml := by
  rw [load_eq_readText]
  cases files.readText location with
  | ok yaml => simp [eq_comm]
  | error error => cases error <;> simp

namespace Environment

section Line

variable (files : FileView) (env : Environment) (document : Path) (number : Nat)
variable {line indent arguments : Text}

/-- A line that is no directive line stays and records nothing. -/
theorem outcome_of_match?_eq_none (h : Directive.match? line = none) :
    env.outcome files document number false line = .ok ([line], []) := by
  unfold outcome Directive.parse
  rw [h]
  rfl

/-- What a directive line does depends on its words. -/
theorem outcome_of_match?_eq_some (h : Directive.match? line = some (indent, arguments)) :
    env.outcome files document number false line =
      match Text.words arguments with
      | [] => .error ⟨document, number, .missingArgument⟩
      | [argument] => env.loadOutcome files document ⟨indent, argument, number⟩
      | _ => .error ⟨document, number, .tooManyArguments⟩ := by
  unfold outcome Directive.parse
  rw [h]
  simp only [Bool.false_eq_true, if_false]
  cases Text.words arguments with
  | nil => rfl
  | cons argument others => cases others <;> rfl

/-- **A line fails exactly by a fault of its arguments.** -/
theorem outcome_eq_error_iff (h : Directive.match? line = some (indent, arguments))
    (error : DirectiveError) :
    env.outcome files document number false line = .error error ↔
      ∃ fault, ArgumentFault files env arguments fault ∧ error = ⟨document, number, fault⟩ := by
  rw [outcome_of_match?_eq_some files env document number h]
  split
  case h_1 hwords =>
    constructor
    · intro herror
      exact ⟨_, .missing hwords, (Except.error.inj herror).symm⟩
    · intro h
      obtain ⟨fault, hfault, rfl⟩ := h
      cases hfault with
      | missing => rfl
      | tooMany hlength => simp [hwords] at hlength
      | notAFile hone => simp [hwords] at hone
      | notUtf8 hone => simp [hwords] at hone
  case h_2 argument hwords =>
    -- With one word the file that it names decides.
    have hargument : ∀ {other : Text}, Text.words arguments = [other] → other = argument := by
      intro other hother
      rw [hwords] at hother
      exact (List.cons.inj hother).1.symm
    unfold loadOutcome
    constructor
    · intro herror
      split at herror
      case h_1 reason hload =>
        obtain rfl := Except.error.inj herror
        rcases (load_eq_error_iff ..).mp hload with ⟨hfile, rfl⟩ | ⟨bytes, hfile, hutf8, rfl⟩
        · exact ⟨_, .notAFile hwords hfile, rfl⟩
        · exact ⟨_, .notUtf8 hwords hfile hutf8, rfl⟩
      case h_2 => exact nomatch herror
    · intro h
      obtain ⟨fault, hfault, rfl⟩ := h
      cases hfault with
      | missing hnone => simp [hwords] at hnone
      | tooMany hlength => simp [hwords] at hlength
      | notAFile hone hfile =>
          obtain rfl := hargument hone
          rw [(load_eq_error_iff files env.markers _ _).mpr (Or.inl ⟨hfile, rfl⟩)]
      | notUtf8 hone hfile hutf8 =>
          obtain rfl := hargument hone
          rw [(load_eq_error_iff files env.markers _ _).mpr (Or.inr ⟨_, hfile, hutf8, rfl⟩)]
  case h_3 hnil hone =>
    have hlength : 1 < (Text.words arguments).length := Text.one_lt_length_of_ne hnil hone
    constructor
    · intro herror
      exact ⟨_, .tooMany hlength, (Except.error.inj herror).symm⟩
    · intro h
      obtain ⟨fault, hfault, rfl⟩ := h
      cases hfault with
      | missing hwords => exact absurd hwords hnil
      | tooMany => rfl
      | notAFile hwords => exact absurd hwords (hone _)
      | notUtf8 hwords => exact absurd hwords (hone _)

/-- A directive line that does not fail records what its argument resolves to. -/
theorem paths_of_outcome_eq_ok (h : Directive.match? line = some (indent, arguments))
    {group : List Text} {paths : List Path}
    (hok : env.outcome files document number false line = .ok (group, paths)) :
    ∃ argument, Text.words arguments = [argument] ∧ paths = [env.resolve argument] := by
  rw [outcome_of_match?_eq_some files env document number h] at hok
  split at hok
  case h_1 => exact nomatch hok
  case h_2 argument hwords =>
    unfold loadOutcome at hok
    split at hok
    case h_1 => exact nomatch hok
    case h_2 => exact ⟨argument, hwords, (Prod.mk.inj (Except.ok.inj hok)).2.symm⟩
  case h_3 => exact nomatch hok

end Line

end Environment

/-! ## §3. All lines. -/

section Lines

variable (files : FileView) (env : Environment) (document : Path) (lines : List Text)

theorem getElem?_outcomes (i : Nat) :
    (env.outcomes files document lines)[i]? = lines[i]?.map fun line =>
      env.outcome files document (i + 1) ((blockBefore lines i).contains line) line :=
  List.getElem?_mapIdx

/-- **The failures of a document are the faults of its active lines.** -/
theorem outcomes_eq_error_iff (i : Nat) (error : DirectiveError) :
    (env.outcomes files document lines)[i]? = some (.error error) ↔
      ∃ fault, FaultAt files env lines i fault ∧ error = ⟨document, i + 1, fault⟩ := by
  rw [getElem?_outcomes]
  constructor
  · intro h
    obtain ⟨line, hline, herror⟩ := Option.map_eq_some_iff.mp h
    cases hin : (blockBefore lines i).contains line with
    | true => rw [hin] at herror; exact nomatch herror
    | false =>
        rw [hin] at herror
        cases hmatch : Directive.match? line with
        | none =>
            rw [env.outcome_of_match?_eq_none files document _ hmatch] at herror
            exact nomatch herror
        | some found =>
            obtain ⟨indent, arguments⟩ := found
            obtain ⟨fault, hfault, rfl⟩ :=
              (env.outcome_eq_error_iff files document _ hmatch error).mp herror
            exact ⟨fault, ⟨arguments, ⟨line, indent, hline, hin, hmatch⟩, hfault⟩, rfl⟩
  · intro h
    obtain ⟨fault, ⟨arguments, ⟨line, indent, hline, hin, hmatch⟩, hfault⟩, rfl⟩ := h
    rw [hline, Option.map_some, hin,
      (env.outcome_eq_error_iff files document _ hmatch _).mpr ⟨fault, hfault, rfl⟩]

/-- A line that does not fail records its target and nothing else. -/
theorem mem_paths_iff {i : Nat} {group : List Text} {paths : List Path}
    (h : (env.outcomes files document lines)[i]? = some (.ok (group, paths))) (path : Path) :
    path ∈ paths ↔ TargetAt env lines i path := by
  rw [getElem?_outcomes] at h
  obtain ⟨line, hline, hok⟩ := Option.map_eq_some_iff.mp h
  unfold TargetAt
  simp only [activeAt_iff hline]
  cases hin : (blockBefore lines i).contains line with
  | true =>
      rw [hin] at hok
      obtain ⟨-, rfl⟩ := Prod.mk.inj (Except.ok.inj hok)
      simp
  | false =>
      rw [hin] at hok
      cases hmatch : Directive.match? line with
      | none =>
          rw [env.outcome_of_match?_eq_none files document _ hmatch] at hok
          obtain ⟨-, rfl⟩ := Prod.mk.inj (Except.ok.inj hok)
          simp
      | some found =>
          obtain ⟨indent, arguments⟩ := found
          obtain ⟨argument, hwords, rfl⟩ := env.paths_of_outcome_eq_ok files document _ hmatch hok
          rw [List.mem_singleton]
          constructor
          · intro hpath
            exact ⟨arguments, argument, ⟨rfl, indent, rfl⟩, hwords, hpath⟩
          · intro h
            obtain ⟨_, _, ⟨_, _, hfound⟩, hone, hpath⟩ := h
            obtain ⟨-, rfl⟩ := Prod.mk.inj (Option.some.inj hfound)
            rw [hwords] at hone
            rw [hpath, (List.cons.inj hone).1]

/-- A position is reached if no line before it has a fault. -/
theorem reached_outcomes_iff {i : Nat} (hi : i ≤ lines.length) :
    Reached (env.outcomes files document lines) i ↔
      ∀ j, j < i → ∀ fault, ¬ FaultAt files env lines j fault := by
  constructor
  · intro h j hj fault hfault
    obtain ⟨given, hgiven⟩ := h j hj
    have herror := (outcomes_eq_error_iff files env document lines j _).mpr ⟨fault, hfault, rfl⟩
    rw [hgiven] at herror
    exact nomatch herror
  · intro h j hj
    have hj' : j < (env.outcomes files document lines).length := by
      rw [Environment.outcomes, List.length_mapIdx]
      omega
    cases houtcome : (env.outcomes files document lines)[j] with
    | ok given => exact ⟨given, by rw [List.getElem?_eq_getElem hj', houtcome]⟩
    | error error =>
        have herror : (env.outcomes files document lines)[j]? = some (.error error) := by
          rw [List.getElem?_eq_getElem hj', houtcome]
        obtain ⟨fault, hfault, -⟩ :=
          (outcomes_eq_error_iff files env document lines j error).mp herror
        exact absurd hfault (h j hj fault)

/-- **The recorded paths are the targets up to the first fault.** -/
theorem mem_gather_outcomes_iff (path : Path) :
    path ∈ (gather (env.outcomes files document lines)).1 ↔
      ∃ i, TargetAt env lines i path ∧ ∀ j, j ≤ i → ∀ fault, ¬ FaultAt files env lines j fault := by
  rw [mem_gather_iff]
  constructor
  · intro h
    obtain ⟨i, group, paths, hok, hmem, hreached⟩ := h
    have htarget := (mem_paths_iff files env document lines hok path).mp hmem
    -- The line at `i` gave something, so it has no fault itself.
    have hnext : Reached (env.outcomes files document lines) (i + 1) := by
      intro j hj
      rcases Nat.lt_or_eq_of_le (Nat.le_of_lt_succ hj) with hlt | rfl
      · exact hreached j hlt
      · exact ⟨_, hok⟩
    refine ⟨i, htarget, fun j hj => ?_⟩
    exact (reached_outcomes_iff files env document lines
      htarget.lt_length).mp hnext j (Nat.lt_succ_of_le hj)
  · intro h
    obtain ⟨i, htarget, hclear⟩ := h
    have hreached := (reached_outcomes_iff files env document lines
      htarget.lt_length).mpr (fun j hj => hclear j (Nat.le_of_lt_succ hj))
    obtain ⟨⟨group, paths⟩, hok⟩ := hreached i (Nat.lt_succ_self i)
    refine ⟨i, group, paths, hok, (mem_paths_iff files env document lines hok path).mpr htarget, ?_⟩
    exact fun j hj => hreached j (Nat.lt_succ_of_lt hj)

end Lines

/-! ## §4. Documents. -/

theorem Environment.has_recordAll (env : Environment) (paths : List Path) (path : Path) :
    (env.recordAll paths).dependencies.Has path ↔
      env.dependencies.Has path ∨
        ∃ recorded ∈ paths, recorded.components = path.components := by
  rw [recordAll_eq]
  exact PathSet.has_insertAll paths path env.dependencies

/-- **What an expansion records**: the targets of the active lines up to the first fault. -/
theorem has_dependencies_expand (files : FileView) (env : Environment) (document : Path)
    (source : Text) (path : Path) :
    (env.expand files document source).1.dependencies.Has path ↔
      env.dependencies.Has path ∨
        ∃ i target, TargetAt env (Text.lines source) i target ∧
          target.components = path.components ∧
          ∀ j, j ≤ i → ∀ fault, ¬ FaultAt files env (Text.lines source) j fault := by
  rw [Environment.expand_eq]
  show (env.recordAll (gather _).1).dependencies.Has path ↔ _
  rw [Environment.has_recordAll]
  refine or_congr_right ?_
  constructor
  · intro h
    obtain ⟨target, hmem, hsame⟩ := h
    obtain ⟨i, htarget, hclear⟩ := (mem_gather_outcomes_iff files env document _ target).mp hmem
    exact ⟨i, target, htarget, hsame, hclear⟩
  · intro h
    obtain ⟨i, target, htarget, hsame, hclear⟩ := h
    exact ⟨target,
      (mem_gather_outcomes_iff files env document _ target).mpr ⟨i, htarget, hclear⟩, hsame⟩

/-- An expansion fails with the fault of a position that no fault precedes. -/
theorem expand_eq_error_iff (files : FileView) (env : Environment) (document : Path)
    (source : Text) (error : DirectiveError) :
    (env.expand files document source).2 = .error error ↔
      ∃ i fault, FaultAt files env (Text.lines source) i fault ∧
        (∀ j, j < i → ∀ earlier, ¬ FaultAt files env (Text.lines source) j earlier) ∧
        error = ⟨document, i + 1, fault⟩ := by
  rw [Environment.expand_eq_error_iff_gather, gather_eq_error_iff]
  constructor
  · intro h
    obtain ⟨i, herror, hreached⟩ := h
    obtain ⟨fault, hfault, rfl⟩ := (outcomes_eq_error_iff files env document _ i error).mp herror
    exact ⟨i, fault, hfault, (reached_outcomes_iff files env document _
      (Nat.le_of_lt hfault.lt_length)).mp hreached, rfl⟩
  · intro h
    obtain ⟨i, fault, hfault, hfirst, rfl⟩ := h
    exact ⟨i, (outcomes_eq_error_iff files env document _ i _).mpr ⟨fault, hfault, rfl⟩,
      (reached_outcomes_iff files env document _ (Nat.le_of_lt hfault.lt_length)).mpr hfirst⟩

/-- **The first failure and the dependencies before it.** An expansion fails exactly if some active
line has a fault. It reports the fault of the least such line with the document and the number of
this line, and the environment behind it has what it had before and the targets of the active lines
before the failing one; without a fault it has the targets of all active lines. -/
theorem expand_first_failure (files : FileView) (env : Environment) (document : Path)
    (source : Text) :
    ((∃ error, (env.expand files document source).2 = .error error) ↔
      ∃ i fault, FaultAt files env (Text.lines source) i fault) ∧
    (∀ i fault, FaultAt files env (Text.lines source) i fault →
      (∀ j, j < i → ∀ earlier, ¬ FaultAt files env (Text.lines source) j earlier) →
      (env.expand files document source).2 = .error ⟨document, i + 1, fault⟩ ∧
      ∀ path, (env.expand files document source).1.dependencies.Has path ↔
        env.dependencies.Has path ∨
          ∃ j target, j < i ∧ TargetAt env (Text.lines source) j target ∧
            target.components = path.components) ∧
    ((∀ i fault, ¬ FaultAt files env (Text.lines source) i fault) →
      ∀ path, (env.expand files document source).1.dependencies.Has path ↔
        env.dependencies.Has path ∨
          ∃ j target, TargetAt env (Text.lines source) j target ∧
            target.components = path.components) := by
  refine ⟨?_, ?_, ?_⟩
  · constructor
    · intro h
      obtain ⟨error, herror⟩ := h
      obtain ⟨i, fault, hfault, -⟩ := (expand_eq_error_iff files env document source error).mp herror
      exact ⟨i, fault, hfault⟩
    · intro h
      obtain ⟨i, fault, hfault, hfirst⟩ := exists_first_fault h
      exact ⟨_, (expand_eq_error_iff files env document source _).mpr
        ⟨i, fault, hfault, hfirst, rfl⟩⟩
  · intro i fault hfault hfirst
    refine ⟨(expand_eq_error_iff files env document source _).mpr ⟨i, fault, hfault, hfirst, rfl⟩,
      fun path => ?_⟩
    rw [has_dependencies_expand]
    refine or_congr_right ?_
    constructor
    · intro h
      obtain ⟨j, target, htarget, hsame, hclear⟩ := h
      refine ⟨j, target, ?_, htarget, hsame⟩
      -- A line at or behind the failing one is not recorded.
      exact Nat.lt_of_not_le fun hij => hclear i hij fault hfault
    · intro h
      obtain ⟨j, target, hj, htarget, hsame⟩ := h
      exact ⟨j, target, htarget, hsame, fun k hk => hfirst k (Nat.lt_of_le_of_lt hk hj)⟩
  · intro hclear path
    rw [has_dependencies_expand]
    refine or_congr_right ?_
    constructor
    · intro h
      obtain ⟨j, target, htarget, hsame, -⟩ := h
      exact ⟨j, target, htarget, hsame⟩
    · intro h
      obtain ⟨j, target, htarget, hsame⟩ := h
      exact ⟨j, target, htarget, hsame, fun k _ => hclear k⟩

/-! ## §5. One file and two documents. -/

/-- A view with one file, in which one line is documented. -/
def singleFile : FileView := fun path =>
  if path = .ofText "/docs/a.yaml".toList then .ok (Utf8.encode "### A".toList)
  else .error .missing

/-- The environment of documents in `/docs` whose YAML files stand beside them. -/
def docsEnvironment : Environment where
  workingDirectory := .ofText "/".toList
  sourceDirectory := .ofText "/docs".toList
  root := ".".toList
  markers := .default

/-- A document that names the file of `singleFile`. -/
def intactDocument : Text := ".. autoyaml:: a.yaml".toList

/-- A document whose second directive names no file and whose third one has no argument. -/
def brokenDocument : Text := intactDocument ++ "\n.. autoyaml:: b.yaml\n.. autoyaml::".toList

/-- The second directive is reported and the file of the first one is recorded, as it is in a
document where nothing fails. -/
theorem expand_first_failure_docs :
    (docsEnvironment.expand singleFile (.ofText "index".toList) brokenDocument).2 =
      .error ⟨.ofText "index".toList, 2,
        .unloaded (.notAFile (docsEnvironment.resolve "b.yaml".toList))⟩ ∧
    (docsEnvironment.expand singleFile (.ofText "index".toList)
      brokenDocument).1.dependencies.Has (.ofText "/docs/a.yaml".toList) ∧
    (docsEnvironment.expand singleFile (.ofText "index".toList)
      intactDocument).1.dependencies.Has (.ofText "/docs/a.yaml".toList) := by
  obtain ⟨-, hfirst, -⟩ :=
    expand_first_failure singleFile docsEnvironment (.ofText "index".toList) brokenDocument
  obtain ⟨hfails, -, hclear⟩ :=
    expand_first_failure singleFile docsEnvironment (.ofText "index".toList) intactDocument
  have hfault : FaultAt singleFile docsEnvironment (Text.lines brokenDocument) 1
      (.unloaded (.notAFile (docsEnvironment.resolve "b.yaml".toList))) :=
    ⟨" b.yaml".toList, ⟨".. autoyaml:: b.yaml".toList, [], by decide, by decide, by decide⟩,
      .notAFile (by decide) (by decide)⟩
  have hearlier : ∀ j, j < 1 → ∀ earlier,
      ¬ FaultAt singleFile docsEnvironment (Text.lines brokenDocument) j earlier := by
    refine (reached_outcomes_iff _ _ (.ofText "index".toList) _ (by decide)).mp fun j hj => ?_
    obtain rfl : j = 0 := Nat.lt_one_iff.mp hj
    exact ⟨(["A".toList], [docsEnvironment.resolve "a.yaml".toList]), by decide +kernel⟩
  obtain ⟨herror, hrecorded⟩ := hfirst 1 _ hfault hearlier
  have hnone : ∀ i fault,
      ¬ FaultAt singleFile docsEnvironment (Text.lines intactDocument) i fault := by
    intro i fault hfault
    obtain ⟨error, herror⟩ := hfails.mpr ⟨i, fault, hfault⟩
    have hok : (docsEnvironment.expand singleFile (.ofText "index".toList) intactDocument).2 =
        .ok "A".toList := by decide +kernel
    rw [hok] at herror
    exact nomatch herror
  have htarget : ∀ {lines : List Text}, lines[0]? = some intactDocument →
      TargetAt docsEnvironment lines 0 (docsEnvironment.resolve "a.yaml".toList) :=
    fun hline => ⟨" a.yaml".toList, "a.yaml".toList,
      ⟨intactDocument, [], hline, by rfl, by decide⟩, by decide, rfl⟩
  refine ⟨herror, (hrecorded _).mpr (Or.inr ?_), (hclear hnone _).mpr (Or.inr ?_)⟩
  · exact ⟨0, _, Nat.one_pos, htarget (by decide), by decide⟩
  · exact ⟨0, _, htarget (by decide), by decide⟩

end YamlDocs
