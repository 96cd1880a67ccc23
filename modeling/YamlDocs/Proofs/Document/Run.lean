/-
  YamlDocs.Proofs.Document.Run
  ────────────────────────────────
  **AN EXPANSION AS THE SUM OF ITS LINES.**

  `outcome` is what one line does to an expansion: it fails, or it gives the
  lines that take its place and the paths that it records.  It looks at the
  source directory, the root and the markers of an environment, never at the
  recorded dependencies, and never at what other lines gave.  So a whole
  expansion is a fold over outcomes that are known in advance:

      expand  =  record the paths, assemble the lines   (`expand_eq`)

  where `gather` adds up the outcomes before the first failure.
-/
import YamlDocs.Document.Expansion
import YamlDocs.Proofs.Document.Literal
import YamlDocs.Proofs.Path.Set
import YamlDocs.Proofs.Result
import Mathlib.Data.List.Forall2

namespace YamlDocs

/-! ## §1. Outcomes. -/

/-- What a line does: it fails, or it gives lines and records paths. -/
abbrev LineOutcome := Except DirectiveError (List Text × List Path)

/-- The lines and the recorded paths up to the first failure. -/
def gather : List LineOutcome → List Path × Except DirectiveError (List Text)
  | [] => ([], .ok [])
  | .error error :: _ => ([], .error error)
  | .ok (lines, paths) :: rest => (paths ++ (gather rest).1, (gather rest).2.map (lines ++ ·))

/-- All lines are gathered exactly if no outcome is a failure. -/
theorem gather_eq_ok_iff (outcomes : List LineOutcome) :
    ∀ lines : List Text, (gather outcomes).2 = .ok lines ↔
      ∃ groups, List.Forall₂ (fun outcome group => ∃ paths, outcome = .ok (group, paths))
        outcomes groups ∧ lines = groups.flatten := by
  induction outcomes with
  | nil =>
      intro lines
      constructor
      · intro h
        exact ⟨[], .nil, (Except.ok.inj h).symm⟩
      · intro h
        obtain ⟨groups, hgroups, rfl⟩ := h
        cases hgroups
        rfl
  | cons outcome rest ih =>
      intro lines
      cases outcome with
      | error error =>
          constructor
          · intro h
            exact nomatch h
          · intro h
            obtain ⟨groups, hgroups, -⟩ := h
            obtain _ | ⟨⟨paths, h⟩, -⟩ := hgroups
            exact nomatch h
      | ok given =>
          obtain ⟨group, paths⟩ := given
          show (gather rest).2.map (group ++ ·) = .ok lines ↔ _
          constructor
          · intro h
            cases hrest : (gather rest).2 with
            | error error => rw [hrest] at h; exact nomatch h
            | ok tail =>
                rw [hrest] at h
                obtain ⟨groups, hgroups, rfl⟩ := (ih tail).mp hrest
                exact ⟨group :: groups, .cons ⟨paths, rfl⟩ hgroups, (Except.ok.inj h).symm⟩
          · intro h
            obtain ⟨groups, hgroups, rfl⟩ := h
            obtain _ | ⟨⟨paths', h⟩, hgroups⟩ := hgroups
            obtain ⟨rfl, -⟩ := Prod.mk.inj (Except.ok.inj h)
            rw [(ih _).mpr ⟨_, hgroups, rfl⟩]
            rfl

/-- Of the gathered lines, those of an outcome stand at its position. -/
theorem getElem?_groups {outcomes : List LineOutcome} {groups : List (List Text)}
    (h : List.Forall₂ (fun outcome group => ∃ paths, outcome = .ok (group, paths)) outcomes groups) :
    ∀ {i : Nat} {group : List Text} {paths : List Path},
      outcomes[i]? = some (.ok (group, paths)) → groups[i]? = some group := by
  induction h with
  | nil => intro i group paths hgiven; exact nomatch hgiven
  | cons hfirst _ ih =>
      intro i group paths hgiven
      cases i with
      | zero =>
          obtain ⟨others, rfl⟩ := hfirst
          obtain ⟨rfl, -⟩ := Prod.mk.inj (Except.ok.inj (Option.some.inj hgiven))
          rfl
      | succ i => exact ih hgiven

/-- The outcome at a position is reached: no earlier one is a failure. -/
def Reached (outcomes : List LineOutcome) (i : Nat) : Prop :=
  ∀ j, j < i → ∃ given, outcomes[j]? = some (.ok given)

theorem reached_zero (outcomes : List LineOutcome) : Reached outcomes 0 :=
  fun j hj => absurd hj (Nat.not_lt_zero j)

theorem reached_succ (outcome : LineOutcome) (rest : List LineOutcome) (i : Nat) :
    Reached (outcome :: rest) (i + 1) ↔ (∃ given, outcome = .ok given) ∧ Reached rest i := by
  constructor
  · intro h
    obtain ⟨given, hgiven⟩ := h 0 (Nat.succ_pos i)
    exact ⟨⟨given, Option.some.inj hgiven⟩, fun j hj => h (j + 1) (Nat.succ_lt_succ hj)⟩
  · intro h j hj
    obtain ⟨⟨given, rfl⟩, h⟩ := h
    cases j with
    | zero => exact ⟨given, rfl⟩
    | succ j => exact h j (Nat.lt_of_succ_lt_succ hj)

/-- **The first failure is the one that is reported.** -/
theorem gather_eq_error_iff (outcomes : List LineOutcome) (error : DirectiveError) :
    (gather outcomes).2 = .error error ↔
      ∃ i, outcomes[i]? = some (.error error) ∧ Reached outcomes i := by
  induction outcomes with
  | nil =>
      constructor
      · intro h
        exact nomatch h
      · intro h
        obtain ⟨i, h, -⟩ := h
        exact nomatch h
  | cons outcome rest ih =>
      cases outcome with
      | error first =>
          constructor
          · intro h
            obtain rfl : first = error := Except.error.inj h
            exact ⟨0, rfl, reached_zero _⟩
          · intro h
            obtain ⟨i, h, hreached⟩ := h
            cases i with
            | zero =>
                obtain rfl : first = error := Except.error.inj (Option.some.inj h)
                rfl
            | succ i =>
                -- Nothing behind a failure is reached.
                obtain ⟨⟨given, hgiven⟩, -⟩ := (reached_succ _ _ _).mp hreached
                exact nomatch hgiven
      | ok given =>
          show (gather rest).2.map _ = _ ↔ _
          rw [map_eq_error_iff, ih]
          constructor
          · intro h
            obtain ⟨i, h, hreached⟩ := h
            exact ⟨i + 1, h, (reached_succ _ _ _).mpr ⟨⟨given, rfl⟩, hreached⟩⟩
          · intro h
            obtain ⟨i, h, hreached⟩ := h
            cases i with
            | zero => exact nomatch h
            | succ i => exact ⟨i, h, ((reached_succ _ _ _).mp hreached).2⟩

/-- **The paths of exactly the outcomes that are reached are recorded.** -/
theorem mem_gather_iff (outcomes : List LineOutcome) (path : Path) :
    path ∈ (gather outcomes).1 ↔
      ∃ i lines paths, outcomes[i]? = some (.ok (lines, paths)) ∧ path ∈ paths ∧
        Reached outcomes i := by
  induction outcomes with
  | nil =>
      constructor
      · intro h
        exact nomatch h
      · intro h
        obtain ⟨i, lines, paths, h, -⟩ := h
        exact nomatch h
  | cons outcome rest ih =>
      cases outcome with
      | error error =>
          constructor
          · intro h
            exact nomatch h
          · intro h
            obtain ⟨i, lines, paths, h, -, hreached⟩ := h
            cases i with
            | zero => exact nomatch h
            | succ i =>
                obtain ⟨⟨given, hgiven⟩, -⟩ := (reached_succ _ _ _).mp hreached
                exact nomatch hgiven
      | ok given =>
          obtain ⟨group, recorded⟩ := given
          show path ∈ recorded ++ (gather rest).1 ↔ _
          rw [List.mem_append, ih]
          constructor
          · intro h
            rcases h with h | ⟨i, lines, paths, h, hmem, hreached⟩
            · exact ⟨0, group, recorded, rfl, h, reached_zero _⟩
            · exact ⟨i + 1, lines, paths, h, hmem,
                (reached_succ _ _ _).mpr ⟨⟨_, rfl⟩, hreached⟩⟩
          · intro h
            obtain ⟨i, lines, paths, h, hmem, hreached⟩ := h
            cases i with
            | zero =>
                obtain ⟨-, rfl⟩ := Prod.mk.inj (Except.ok.inj (Option.some.inj h))
                exact Or.inl hmem
            | succ i =>
                exact Or.inr ⟨i, lines, paths, h, hmem, ((reached_succ _ _ _).mp hreached).2⟩

namespace Environment

/-! ## §2. What a line does. -/

/-- What a directive does: it fails with its file, or it gives the documentation and records the
path. -/
def loadOutcome (files : FileView) (env : Environment) (document : Path)
    (directive : Directive) : LineOutcome :=
  match load files env.markers (env.resolve directive.argument) with
  | .error error => .error ⟨document, directive.line, .unloaded error⟩
  | .ok buffer => .ok (directive.render buffer, [env.resolve directive.argument])

/-- What a line does to an expansion; a literal line is not looked at. -/
def outcome (files : FileView) (env : Environment) (document : Path) (number : Nat)
    (literal : Bool) (line : Text) : LineOutcome :=
  if literal then .ok ([line], [])
  else
    match Directive.parse document number line with
    | .error error => .error error
    | .ok none => .ok ([line], [])
    | .ok (some directive) => env.loadOutcome files document directive

/-- The environment with some more dependencies. -/
def recordAll (env : Environment) (paths : List Path) : Environment := paths.foldl record env

@[simp] theorem recordAll_nil (env : Environment) : env.recordAll [] = env := rfl

theorem recordAll_append (env : Environment) (first second : List Path) :
    env.recordAll (first ++ second) = (env.recordAll first).recordAll second :=
  List.foldl_append

/-- Recording puts the paths into the dependencies and changes nothing else. -/
theorem recordAll_eq (paths : List Path) :
    ∀ env : Environment,
      env.recordAll paths = { env with dependencies := env.dependencies.insertAll paths } := by
  induction paths with
  | nil => intro env; rfl
  | cons path rest ih =>
      intro env
      show (env.record path).recordAll rest = _
      rw [ih (env.record path)]
      rfl

/-- What a line does is independent of the recorded dependencies. -/
theorem outcome_recordAll (files : FileView) (env : Environment) (paths : List Path) :
    (env.recordAll paths).outcome files = env.outcome files := by
  rw [recordAll_eq]
  rfl

/-! ## §3. All lines. -/

/-- **One line of an expansion**: its outcome, then the rest. -/
theorem expandLines_cons (files : FileView) (document : Path) (env : Environment)
    (block : LiteralBlock) (number : Nat) (line : Text) (rest : List Text) :
    expandLines files document env block number (line :: rest) =
      match env.outcome files document number (block.contains line) line with
      | .error error => (env, .error error)
      | .ok (lines, paths) =>
        prepend lines
          (expandLines files document (env.recordAll paths) (block.next line) (number + 1) rest) := by
  unfold outcome LiteralBlock.next
  rw [expandLines]
  cases hin : block.contains line with
  | true => rfl
  | false =>
      simp only [Bool.false_eq_true, if_false]
      cases Directive.parse document number line with
      | error error => rfl
      | ok directive? =>
          cases directive? with
          | none => rfl
          | some directive =>
              simp only [run, loadOutcome]
              cases load files env.markers (env.resolve directive.argument) <;> rfl

/-- What the lines of a document do, each by its position. -/
def outcomes (files : FileView) (env : Environment) (document : Path) (lines : List Text) :
    List LineOutcome :=
  lines.mapIdx fun i line =>
    env.outcome files document (i + 1) ((blockBefore lines i).contains line) line

/-- **The expansion of lines is the sum of their outcomes.** -/
theorem expandLines_eq (files : FileView) (document : Path) (lines : List Text) :
    ∀ (env : Environment) (block : LiteralBlock) (number : Nat),
      expandLines files document env block number lines =
        let all := gather (lines.mapIdx fun i line =>
          env.outcome files document (number + i)
            (((lines.take i).foldl LiteralBlock.next block).contains line) line)
        (env.recordAll all.1, all.2) := by
  induction lines with
  | nil => intro env block number; rfl
  | cons line rest ih =>
      intro env block number
      rw [expandLines_cons, List.mapIdx_cons]
      simp only [List.take_zero, List.foldl_nil, List.take_succ_cons, List.foldl_cons,
        Nat.add_zero]
      cases env.outcome files document number (block.contains line) line with
      | error error => rfl
      | ok given =>
          obtain ⟨group, paths⟩ := given
          -- The rest runs in an environment with more dependencies, which no outcome looks at.
          simp only [ih, outcome_recordAll, gather, recordAll_append, Nat.add_assoc,
            Nat.add_comm 1]
          generalize gather _ = all
          obtain ⟨recorded, result⟩ := all
          cases result <;> rfl

/-- **A whole expansion**: the paths up to the first failing line are recorded, and without such
a line the gathered lines are assembled. -/
theorem expand_eq (files : FileView) (env : Environment) (document : Path) (source : Text) :
    env.expand files document source =
      let all := gather (env.outcomes files document (Text.lines source))
      (env.recordAll all.1, all.2.map (assemble source)) := by
  unfold expand outcomes blockBefore
  rw [expandLines_eq]
  simp only [Nat.add_comm 1]
  generalize gather _ = all
  obtain ⟨recorded, result⟩ := all
  cases result <;> rfl

/-- An expansion fails where the sum of its lines does. -/
theorem expand_eq_error_iff_gather (files : FileView) (env : Environment) (document : Path)
    (source : Text) (error : DirectiveError) :
    (env.expand files document source).2 = .error error ↔
      (gather (env.outcomes files document (Text.lines source))).2 = .error error := by
  rw [expand_eq]
  show (gather _).2.map _ = _ ↔ _
  rw [map_eq_error_iff]

/-- An expansion succeeds where all its lines do, with the text that is assembled from what they
give. -/
theorem expand_eq_ok_iff_gather (files : FileView) (env : Environment) (document : Path)
    (source text : Text) :
    (env.expand files document source).2 = .ok text ↔
      ∃ groups, List.Forall₂ (fun outcome group => ∃ paths, outcome = .ok (group, paths))
          (env.outcomes files document (Text.lines source)) groups ∧
        text = assemble source groups.flatten := by
  rw [expand_eq]
  show (gather _).2.map _ = .ok text ↔ _
  constructor
  · intro h
    cases hall : (gather (env.outcomes files document (Text.lines source))).2 with
    | error error => rw [hall] at h; exact nomatch h
    | ok lines =>
        rw [hall] at h
        obtain ⟨groups, hgroups, rfl⟩ := (gather_eq_ok_iff _ _).mp hall
        exact ⟨groups, hgroups, (Except.ok.inj h).symm⟩
  · intro h
    obtain ⟨groups, hgroups, rfl⟩ := h
    rw [(gather_eq_ok_iff _ _).mpr ⟨groups, hgroups, rfl⟩]
    rfl

end Environment

end YamlDocs
