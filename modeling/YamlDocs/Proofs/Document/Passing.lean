/-
  YamlDocs.Proofs.Document.Passing
  ────────────────────────────────
  **DOCUMENTS WITHOUT DIRECTIVES PASS THROUGH.**

  A document whose directive lines are all literal expands to its own lines,
  with line feeds between them, and records nothing
  (`expand_of_directiveFree`).  Ten characters end a line, but only a line
  feed or a carriage return at the end of the document is answered by a line
  feed.  So the lines stay the same whatever ends them, with one exception:
  an empty last line that another break ends is lost (`expand_keeps_lines`,
  `empty_last_line_is_lost`).
-/
import YamlDocs.Proofs.Document.Dependency
import YamlDocs.Proofs.Document.Expansion
import YamlDocs.Proofs.Text.Lines

namespace YamlDocs

/-! ## §1. Documents without directives. -/

/-- Every line is literal or no directive line. -/
def DirectiveFree (lines : List Text) : Prop :=
  ∀ (i : Nat) (line : Text), lines[i]? = some line →
    IsLiteral lines i ∨ Directive.match? line = none

/-- No line outside the tracked literal blocks is a directive line. -/
theorem directiveFree_iff_contains {lines : List Text} :
    DirectiveFree lines ↔
      ∀ (i : Nat) (line : Text), lines[i]? = some line →
        (blockBefore lines i).contains line = false → Directive.match? line = none := by
  constructor
  · intro h i line hline hout
    refine (h i line hline).resolve_left fun hliteral => ?_
    rw [(contains_blockBefore_iff hline).mpr hliteral] at hout
    exact nomatch hout
  · intro h i line hline
    cases hin : (blockBefore lines i).contains line with
    | true => exact Or.inl ((contains_blockBefore_iff hline).mp hin)
    | false => exact Or.inr (h i line hline hin)

/-- The lines outside literal blocks can be looked through. -/
theorem directiveFree_iff_outsideLines (lines : List Text) :
    DirectiveFree lines ↔
      ∀ placed ∈ outsideLines {} 1 lines, Directive.match? placed.2 = none := by
  rw [directiveFree_iff_contains]
  constructor
  · intro h placed hplaced
    obtain ⟨i, hline, -, hout⟩ := (mem_outsideLines_iff lines {} 1 placed).mp hplaced
    exact h i placed.2 hline hout
  · intro h i line hline hout
    exact h (1 + i, line) ((mem_outsideLines_iff lines {} 1 _).mpr ⟨i, hline, rfl, hout⟩)

instance : DecidablePred DirectiveFree := fun lines =>
  decidable_of_iff _ (directiveFree_iff_outsideLines lines).symm

/-! ## §2. What they expand to. -/

/-- Lines that stay and record nothing. -/
theorem gather_map_ok (lines : List Text) :
    gather (lines.map fun line => .ok ([line], [])) = ([], .ok lines) := by
  induction lines with
  | nil => rfl
  | cons line rest ih =>
      rw [List.map_cons, gather, ih]
      rfl

/-- Every line of such a document stays. -/
theorem outcomes_of_directiveFree {lines : List Text} (hfree : DirectiveFree lines)
    (files : FileView) (env : Environment) (document : Path) :
    env.outcomes files document lines = lines.map fun line => .ok ([line], []) := by
  apply List.ext_getElem?
  intro i
  rw [getElem?_outcomes, List.getElem?_map]
  cases hline : lines[i]? with
  | none => rfl
  | some line =>
      simp only [Option.map_some]
      cases hin : (blockBefore lines i).contains line with
      | true => rfl
      | false =>
          have hnone := directiveFree_iff_contains.mp hfree i line hline hin
          rw [env.outcome_of_match?_eq_none files document _ hnone]

/-- **A document without directives expands to its own lines**, and nothing is recorded. -/
theorem expand_of_directiveFree {source : Text} (hfree : DirectiveFree (Text.lines source))
    (files : FileView) (env : Environment) (document : Path) :
    env.expand files document source =
      (env, .ok (Environment.assemble source (Text.lines source))) := by
  rw [Environment.expand_eq, outcomes_of_directiveFree hfree, gather_map_ok]
  rfl

/-! ## §3. Lines read back. -/

/-- **The lines of an assembled document**: an empty last one is lost unless the document ends in a
line feed or a carriage return. -/
theorem lines_assemble (source : Text) :
    Text.lines (Environment.assemble source (Text.lines source)) =
      if (Text.lines source).getLast? = some [] ∧ Text.endsWithLineEnd source = false then
        (Text.lines source).dropLast
      else Text.lines source := by
  have hfree : ∀ line ∈ Text.lines source, Text.BreakFree line :=
    fun line => Text.breakFree_of_mem_lines
  unfold Environment.assemble
  cases hend : Text.endsWithLineEnd source with
  | true =>
      have hne : source ≠ [] := by
        rintro rfl
        exact nomatch hend
      -- With a line feed behind them, the joined lines are the lines written out.
      rw [if_pos rfl, Text.join_append_feed (Text.lines_ne_nil hne), Text.lines_unlines hfree]
      simp
  | false =>
      -- Without it, an empty last line is not told from the end of the line before.
      rw [if_neg Bool.false_ne_true, List.append_nil, Text.lines_join hfree]
      simp

/-- **Documents without directives keep their lines.** The expansion succeeds and leaves the
environment as it is. The lines of its text are those of the document, whichever breaks end them;
only an empty last line is lost if a break other than a line feed and a carriage return ends it. -/
theorem expand_keeps_lines (files : FileView) (env : Environment) (document : Path)
    (source : Text) (hfree : DirectiveFree (Text.lines source)) :
    ∃ text, env.expand files document source = (env, .ok text) ∧
      Text.lines text =
        if (Text.lines source).getLast? = some [] ∧
            source.getLast? ≠ some '\n' ∧ source.getLast? ≠ some '\r' then
          (Text.lines source).dropLast
        else Text.lines source := by
  refine ⟨_, expand_of_directiveFree hfree files env document, ?_⟩
  have hend : Text.endsWithLineEnd source = false ↔
      source.getLast? ≠ some '\n' ∧ source.getLast? ≠ some '\r' := by
    rw [← Bool.not_eq_true, endsWithLineEnd_iff, not_or]
  rw [lines_assemble]
  simp only [hend]

/-! ## §4. Two documents. -/

/-- Four kinds of break and a sample in a literal block. -/
def mixedDocument : Text :=
  "Usage::\x0b   .. autoyaml:: a.yaml\u2028\r\nEnd\u0085".toList

theorem expand_keeps_lines_sample :
    DirectiveFree (Text.lines mixedDocument) ∧
    ∃ text, docsEnvironment.expand singleFile (.ofText "index".toList) mixedDocument =
        (docsEnvironment, .ok text) ∧
      Text.lines text = Text.lines mixedDocument := by
  have hfree : DirectiveFree (Text.lines mixedDocument) := by decide +kernel
  obtain ⟨text, hexpand, hlines⟩ :=
    expand_keeps_lines singleFile docsEnvironment (.ofText "index".toList) mixedDocument hfree
  rw [if_neg (by decide +kernel)] at hlines
  exact ⟨hfree, text, hexpand, hlines⟩

/-- A page break behind the title leaves an empty last line, which the expansion loses. -/
theorem empty_last_line_is_lost :
    DirectiveFree (Text.lines "Title\n\x0c".toList) ∧
    (docsEnvironment.expand singleFile (.ofText "index".toList) "Title\n\x0c".toList).2 =
      .ok "Title\n".toList ∧
    Text.lines "Title\n\x0c".toList = ["Title".toList, []] ∧
    Text.lines "Title\n".toList = ["Title".toList] := by
  exact ⟨by decide +kernel, by decide +kernel, by decide +kernel, by decide +kernel⟩

end YamlDocs
