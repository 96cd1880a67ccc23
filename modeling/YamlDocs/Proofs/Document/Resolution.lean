/-
  YamlDocs.Proofs.Document.Resolution
  ────────────────────────────────
  **WHAT ARGUMENTS RESOLVE TO.**

  An environment puts the same components in front of every argument and
  takes of the argument its inner components only (`exists_front`).  So
  spellings that no stack tells apart resolve to the same path
  (`resolve_congr`): slashes in front make no difference, nor does anything
  that normalization leaves out.

  Main results:

    • all spellings of a target are one dependency
      (`spellings_are_one_dependency`),
    • normalized paths, and with them resolved ones, are spelled in one
      canonical way (`normalize_is_canonical`).
-/
import YamlDocs.Proofs.Document.Failure
import YamlDocs.Proofs.Document.Root
import YamlDocs.Proofs.Path.Form
import YamlDocs.Proofs.Path.Set

namespace YamlDocs

/-! ## §1. Spellings that no stack tells apart. -/

namespace Path

/-- A slash in front gives no inner component. -/
theorem inner_ofText_slash (text : Text) : (ofText ('/' :: text)).inner = (ofText text).inner := by
  show (⟨[] ++ slash :: (ofText text).bytes⟩ : Path).inner = _
  rw [inner_append_slash]
  rfl

theorem inner_ofText_slashes (count : Nat) (text : Text) :
    (ofText (List.replicate count '/' ++ text)).inner = (ofText text).inner := by
  induction count with
  | zero => rfl
  | succ count ih =>
      show (ofText ('/' :: (List.replicate count '/' ++ text))).inner = _
      rw [inner_ofText_slash, ih]

/-- **Relative paths with one normal form** read alike to every stack. -/
theorem foldl_inner_eq_of_normalize_eq {p q : Path} (hp : p.isAbsolute = false)
    (hq : q.isAbsolute = false) (h : p.normalize = q.normalize) (stack : List Component) :
    p.inner.foldl pushComponent stack = q.inner.foldl pushComponent stack := by
  rw [← foldl_components_of_relative hp, ← foldl_components_of_relative hq,
    ← foldl_components_normalize p, ← foldl_components_normalize q, h]

end Path

namespace Environment

variable {env : Environment}

/-- **In front of every argument stands the same**, and of the argument no more than its inner
components. -/
theorem exists_front (env : Environment) :
    ∃ front, ∀ argument, (env.workingDirectory.join (env.written argument)).components =
      front ++ (Path.ofText argument).inner := by
  by_cases hroot : env.root = []
  · -- Behind an empty root the slash in front makes the path absolute.
    refine ⟨[.root], fun argument => ?_⟩
    have habsolute : (Path.ofText ('/' :: argument)).isAbsolute = true :=
      Path.isAbsolute_ofText_iff.mpr rfl
    have hwritten : env.written argument = Path.ofText ('/' :: argument) := by
      unfold written
      rw [hroot]
      exact Path.join_of_isAbsolute habsolute
    rw [hwritten, Path.join_of_isAbsolute habsolute, Path.components_of_isAbsolute habsolute,
      Path.inner_ofText_slash]
    rfl
  · exact ⟨_, components_join_written hroot⟩

/-- **Arguments that no stack tells apart** resolve to the same path. -/
theorem resolve_congr {x y : Text}
    (h : ∀ stack, (Path.ofText x).inner.foldl Path.pushComponent stack =
      (Path.ofText y).inner.foldl Path.pushComponent stack) :
    env.resolve x = env.resolve y := by
  obtain ⟨front, hfront⟩ := exists_front env
  apply Path.normalize_eq_of_foldl_eq
  rw [hfront, hfront, List.foldl_append, List.foldl_append, h]

/-- Relative arguments with one normal form resolve to the same path. -/
theorem resolve_eq_of_normalize_eq {x y : Text} (hx : x.head? ≠ some '/')
    (hy : y.head? ≠ some '/') (h : (Path.ofText x).normalize = (Path.ofText y).normalize) :
    env.resolve x = env.resolve y := by
  have hrelative : ∀ {text : Text}, text.head? ≠ some '/' →
      (Path.ofText text).isAbsolute = false := by
    intro text htext
    exact Bool.eq_false_iff.mpr fun habsolute => htext (Path.isAbsolute_ofText_iff.mp habsolute)
  exact resolve_congr (Path.foldl_inner_eq_of_normalize_eq (hrelative hx) (hrelative hy) h)

/-- Slashes in front of an argument make no difference. -/
theorem resolve_slashes (count : Nat) (argument : Text) :
    env.resolve (List.replicate count '/' ++ argument) = env.resolve argument :=
  resolve_congr fun stack => by rw [Path.inner_ofText_slashes]

/-- **What an argument resolves to is canonical**, whatever root and argument are. -/
theorem isCanonical_resolve (h : env.workingDirectory.isAbsolute = true)
    (argument : Text) : (env.resolve argument).IsCanonical :=
  Path.isCanonical_normalize (Path.isAbsolute_join h)

/-! ## §3. Running directives. -/

section Run

variable {files files' : FileView} {document document' : Path} {first second directive : Directive}

/-- A directive that fails leaves the environment as it is. -/
theorem run_eq_of_error {error : DirectiveError}
    (h : (env.run files document directive).2 = .error error) :
    (env.run files document directive).1 = env := by
  cases hload : load files env.markers (env.resolve directive.argument) with
  | error reason => simp only [run, hload]
  | ok buffer => simp [run, hload] at h

/-- A directive that succeeds records what it resolves to. -/
theorem run_eq_of_ok {buffer : Buffer} (h : (env.run files document directive).2 = .ok buffer) :
    (env.run files document directive).1 = env.record (env.resolve directive.argument) := by
  cases hload : load files env.markers (env.resolve directive.argument) with
  | error reason => simp [run, hload] at h
  | ok buffer => simp only [run, hload]

/-- A path that is recorded is not recorded again. -/
theorem record_record (env : Environment) (path : Path) :
    (env.record path).record path = env.record path := by
  have hinsert := env.dependencies.insert_insert path
  unfold record
  rw [hinsert]

/-- **Two directives with one target** record it once if either of them succeeds, though the files
may have changed in between. -/
theorem run_run_eq (hsame : env.resolve second.argument = env.resolve first.argument)
    (hloads : (∃ buffer, (env.run files document first).2 = .ok buffer) ∨
      ∃ buffer, ((env.run files document first).1.run files' document' second).2 = .ok buffer) :
    ((env.run files document first).1.run files' document' second).1 =
      env.record (env.resolve first.argument) := by
  cases hfirst : (env.run files document first).2 with
  | error error =>
      -- Only the second directive records.
      rw [run_eq_of_error hfirst] at hloads ⊢
      rcases hloads with ⟨buffer, hok⟩ | ⟨buffer, hok⟩
      · rw [hfirst] at hok
        cases hok
      · rw [run_eq_of_ok hok, hsame]
  | ok buffer =>
      rw [run_eq_of_ok hfirst]
      cases hsecond : ((env.record (env.resolve first.argument)).run files' document' second).2 with
      | error error => exact run_eq_of_error hsecond
      | ok buffer =>
          have htarget : (env.record (env.resolve first.argument)).resolve second.argument =
              env.resolve first.argument := hsame
          rw [run_eq_of_ok hsecond, htarget, record_record]

end Run

/-! ## §4. Spellings of a target. -/

/-- **All spellings of a target are one dependency.** Either side of a joined path may be
normalized before it is joined. Two arguments without a slash in front and with one normal form
resolve to the same path in every environment, and directives that name them record one
dependency, be it that both load it or one of them. Slashes in front of an argument make no
difference. -/
theorem spellings_are_one_dependency :
    (∀ base path : Path,
      (base.join path).normalize = (base.join path.normalize).normalize ∧
      (base.join path).normalize = (base.normalize.join path).normalize) ∧
    ∀ env : Environment,
      (∀ x y : Text, x.head? ≠ some '/' → y.head? ≠ some '/' →
        (Path.ofText x).normalize = (Path.ofText y).normalize →
        env.resolve x = env.resolve y ∧
        ∀ (files files' : FileView) (document document' : Path) (first second : Directive),
          first.argument = x → second.argument = y →
          ((∃ buffer, (env.run files document first).2 = .ok buffer) ∨
            ∃ buffer,
              ((env.run files document first).1.run files' document' second).2 = .ok buffer) →
          ((env.run files document first).1.run files' document' second).1 =
            env.record (env.resolve x)) ∧
      ∀ (count : Nat) (argument : Text),
        env.resolve (List.replicate count '/' ++ argument) = env.resolve argument := by
  refine ⟨fun base path => ⟨?_, ?_⟩, fun env => ⟨?_, resolve_slashes⟩⟩
  · rw [Path.normalize_join_normalize]
  · rw [Path.normalize_normalize_join]
  · intro x y hx hy hnormal
    have hsame : env.resolve x = env.resolve y := resolve_eq_of_normalize_eq hx hy hnormal
    refine ⟨hsame, ?_⟩
    rintro files files' document document' first second rfl rfl hloads
    exact run_run_eq hsame.symm hloads

/-- The same file in two spellings, named by two documents. -/
theorem spellings_are_one_dependency_docs :
    (Path.ofText "./x/..//a.yaml".toList).normalize = (Path.ofText "a.yaml".toList).normalize ∧
    docsEnvironment.resolve "./x/..//a.yaml".toList = .ofText "/docs/a.yaml".toList ∧
    ((docsEnvironment.run singleFile (.ofText "index".toList)
        ⟨[], "./x/..//a.yaml".toList, 1⟩).1.run singleFile (.ofText "usage".toList)
        ⟨[' '], "a.yaml".toList, 7⟩).1.dependencies.toList = [.ofText "/docs/a.yaml".toList] := by
  have hnormal : (Path.ofText "./x/..//a.yaml".toList).normalize =
      (Path.ofText "a.yaml".toList).normalize := by decide
  obtain ⟨hsame, hruns⟩ := (spellings_are_one_dependency.2 docsEnvironment).1
    "./x/..//a.yaml".toList "a.yaml".toList (by decide) (by decide) hnormal
  have hresolve : docsEnvironment.resolve "a.yaml".toList = .ofText "/docs/a.yaml".toList := by
    decide
  have hloads : (docsEnvironment.run singleFile (.ofText "index".toList)
      ⟨[], "./x/..//a.yaml".toList, 1⟩).2 =
        .ok (extract .default (.ofText "/docs/a.yaml".toList) "### A".toList) := by
    decide +kernel
  rw [hruns singleFile singleFile (.ofText "index".toList) (.ofText "usage".toList) _ _ rfl rfl
    (Or.inl ⟨_, hloads⟩), hsame, hresolve]
  exact ⟨hnormal, rfl, rfl⟩

/-! ## §5. Canonical spellings. -/

/-- **Normalization yields a canonical form.** A normalized path is spelled by the `..` and names
that cancelling leaves of the inner components, by the names alone behind the root, and by a dot if
nothing is left. A dot stands alone, no `..` stands behind a name or the root, and no slash stands
at the end but that of the lone root. The path stays absolute or relative, its names are some of
the names it had, in their order, normalizing again changes nothing, and the components of a path
settle its normal form. In an absolute working directory every argument resolves, to an absolute
path in this form. -/
theorem normalize_is_canonical :
    (∀ path : Path,
      (∃ steps names, (∀ name ∈ names, Path.IsName name) ∧
        Relation.ReflTransGen CancelStep path.inner (Path.climb steps names) ∧
        path.normalize = ⟨Path.spelling path.isAbsolute steps names⟩) ∧
      (.here ∈ path.normalize.components → path.normalize = ⟨[Path.dot]⟩) ∧
      (path.normalize.components.Pairwise
        fun before after => after = .parent → before = .parent) ∧
      (path.normalize.bytes.getLast? = some Path.slash → path.normalize = ⟨[Path.slash]⟩) ∧
      path.normalize.isAbsolute = path.isAbsolute ∧
      (path.normalize.components.filter Component.isName).Sublist
        (path.components.filter Component.isName) ∧
      path.normalize.normalize = path.normalize ∧
      ∀ other : Path, path.components = other.components → path.normalize = other.normalize) ∧
    ∀ (env : Environment) (argument : Text), env.workingDirectory.isAbsolute = true →
      (Path.absolute? env.workingDirectory (env.written argument)).map Path.normalize =
        some (env.resolve argument) ∧
      (env.resolve argument).isAbsolute = true ∧
      (env.resolve argument).IsCanonical := by
  refine ⟨fun path => ⟨Path.normalize_spelled path, Path.normalize_eq_dot_of_here_mem,
    Path.parents_first_normalize path, Path.normalize_eq_root_of_getLast?,
    Path.isAbsolute_normalize path, Path.names_normalize_sublist path,
    Path.normalize_normalize path, ?_⟩, ?_⟩
  · intro other hcomponents
    unfold Path.normalize
    rw [hcomponents]
  · intro env argument hworking
    refine ⟨absolute?_written env argument, ?_, isCanonical_resolve hworking argument⟩
    have habsolute : (env.workingDirectory.join (env.written argument)).isAbsolute = true :=
      Path.isAbsolute_join hworking
    exact (Path.isAbsolute_normalize _).trans habsolute

/-- A relative path that cancels away, one that climbs to the root, two spellings of the same
components, and an argument that climbs out of its root. -/
theorem normalize_is_canonical_climbing :
    (Path.ofText "./a/..".toList).normalize = .ofText ".".toList ∧
    (Path.ofText "/a/../..".toList).normalize = .ofText "/".toList ∧
    (Path.ofText "../a//b/".toList).normalize = (Path.ofText "../a/./b".toList).normalize ∧
    (workEnvironment "../yaml".toList).resolve "../../../c".toList = .ofText "/c".toList ∧
    ((workEnvironment "../yaml".toList).resolve "../../../c".toList).IsCanonical := by
  obtain ⟨hpaths, hresolve⟩ := normalize_is_canonical
  obtain ⟨-, hdot, -⟩ := hpaths (.ofText "./a/..".toList)
  obtain ⟨-, -, -, hroot, -⟩ := hpaths (.ofText "/a/../..".toList)
  obtain ⟨-, -, -, -, -, -, -, hcomponents⟩ := hpaths (.ofText "../a//b/".toList)
  refine ⟨hdot (by decide), hroot (by decide), hcomponents _ (by decide), by decide, ?_⟩
  exact (hresolve (workEnvironment "../yaml".toList) "../../../c".toList (by decide)).2.2

end Environment

end YamlDocs
