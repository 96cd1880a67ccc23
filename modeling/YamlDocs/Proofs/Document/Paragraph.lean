/-
  YamlDocs.Proofs.Document.Paragraph
  ────────────────────────────────
  **A PARAGRAPH THAT ENDS IN TWO COLONS PROTECTS ITS BLOCK.**

  A line that ends in `::` and is no explicit markup announces literal text:
  the lines behind it, as long as they are blank or indented deeper.  It
  opens a literal block exactly if it does not begin with two dots
  (`opens_iff_of_colons`).  If it does open one, the lines behind it are
  literal wherever they lead: they stay as they are, cause no error, and what
  they say makes no difference to anything else (`paragraph_protects_block`).

  A paragraph that begins with two dots, such as a relative path, is taken
  for explicit markup and protects nothing (`dotted_paragraph_is_expanded`).
-/
import YamlDocs.Proofs.Document.Dependency
import YamlDocs.Proofs.Document.Expansion
import YamlDocs.Proofs.Document.Markup
import YamlDocs.Proofs.Text.Trim

namespace YamlDocs

/-! ## §1. Which paragraphs open a block. -/

/-- Whether a line is explicit markup: two dots, with nothing or white space behind them. -/
def isExplicitMarkup (line : Text) : Bool :=
  match Directive.opener.isPrefixOf? (Text.trim line) with
  | none => false
  | some [] => true
  | some (c :: _) => Text.isBlank c

theorem isBlank_of_isGap {c : Char} (h : Directive.isGap c = true) : Text.isBlank c = true := by
  simp only [Directive.isGap, Bool.or_eq_true, beq_iff_eq] at h
  rcases h with rfl | rfl
  · decide
  · decide

/-- A line with an explicit body is explicit markup. -/
theorem isExplicitMarkup_of_body {line indent body : Text}
    (h : Directive.explicitMarkup? line = some (indent, body)) : isExplicitMarkup line = true := by
  obtain ⟨gap, hindent, hgap, hne, -, rfl⟩ := Directive.explicitMarkup?_eq_some_iff.mp h
  have htrim : Text.trim (indent ++ Directive.opener ++ gap ++ body) =
      Directive.opener ++ Text.trimEnd (gap ++ body) := by
    unfold Text.trim
    rw [List.append_assoc, List.append_assoc,
      Text.trimStart_append fun c hc => isBlank_of_isGap (hindent c hc)]
    -- The dots are no white space, so trimming stops at them from both sides.
    show Text.trimEnd (['.'] ++ '.' :: (gap ++ body)) = _
    rw [Text.trimEnd_append_cons ['.'] (gap ++ body) (by decide)]
    rfl
  have hbehind := Text.trimEnd_prefix (gap ++ body)
  obtain ⟨first, gap, rfl⟩ := List.exists_cons_of_ne_nil hne
  unfold isExplicitMarkup
  rw [htrim, List.isPrefixOf?_eq_some_iff_append_eq.mpr rfl]
  cases hrest : Text.trimEnd ((first :: gap) ++ body) with
  | nil => rfl
  | cons c rest =>
      rw [hrest] at hbehind
      obtain rfl : c = first := (List.cons_prefix_cons.mp hbehind).1
      exact isBlank_of_isGap (hgap c List.mem_cons_self)

/-- **A paragraph that ends in two colons opens a block exactly if it does not begin with two
dots.** -/
theorem opens_iff_of_colons {line : Text} (hcolons : [':', ':'] <:+ Text.trim line)
    (hmarkup : isExplicitMarkup line = false) :
    LiteralBlock.opens line = true ↔ ¬ Directive.opener <+: Text.trim line := by
  have hbody : Directive.explicitMarkup? line = none := by
    cases h : Directive.explicitMarkup? line with
    | none => rfl
    | some found =>
        rw [isExplicitMarkup_of_body h] at hmarkup
        exact nomatch hmarkup
  have hname : Directive.name? line = none := by
    unfold Directive.name?
    rw [hbody]
  have hsuffix : [':', ':'].isSuffixOf (Text.trim line) = true :=
    List.isSuffixOf_iff_suffix.mpr hcolons
  unfold LiteralBlock.opens
  rw [hname]
  simp [hsuffix, ← List.isPrefixOf_iff_prefix]

/-! ## §2. The lines behind a paragraph. -/

/-- The line at position `i` belongs to the run of lines behind position `j` that are blank or
indented deeper than the line there. -/
def RunsBehind (lines : List Text) (j i : Nat) : Prop :=
  j < i ∧ ∃ opener, lines[j]? = some opener ∧
    ∀ k, j < k → k ≤ i → ∃ line, lines[k]? = some line ∧
      (Text.isBlankLine line = true ∨ Text.indentWidth opener < Text.indentWidth line)

theorem RunsBehind.exists_line {lines : List Text} {j i : Nat} (h : RunsBehind lines j i) :
    ∃ line, lines[i]? = some line := by
  obtain ⟨hlt, opener, hopener, hall⟩ := h
  obtain ⟨line, hline, -⟩ := hall i hlt (Nat.le_refl i)
  exact ⟨line, hline⟩

theorem RunsBehind.lt_length {lines : List Text} {j i : Nat} (h : RunsBehind lines j i) :
    i < lines.length := by
  obtain ⟨line, hline⟩ := h.exists_line
  exact (List.getElem?_eq_some_iff.mp hline).1

/-- The line at position `j` is `opener`; it stands outside literal blocks and opens one. -/
structure OpensBlock (lines : List Text) (j : Nat) (opener : Text) : Prop where
  line : lines[j]? = some opener
  outside : ¬ IsLiteral lines j
  opens : LiteralBlock.opens opener = true

/-- The run behind a line that opens a block is literal. -/
theorem OpensBlock.isLiteral {lines : List Text} {j i : Nat} {opener : Text}
    (hopener : OpensBlock lines j opener) (h : RunsBehind lines j i) : IsLiteral lines i := by
  obtain ⟨hlt, first, hfirst, hall⟩ := h
  obtain rfl : opener = first := Option.some.inj (hopener.line.symm.trans hfirst)
  rw [IsLiteral]
  exact ⟨j, hlt, opener, hopener.line, hopener.outside, hopener.opens, hall⟩

theorem not_activeAt_of_isLiteral {lines : List Text} {i : Nat} {arguments : Text}
    (h : IsLiteral lines i) : ¬ ActiveAt lines i arguments := by
  intro hactive
  obtain ⟨line, indent, hline, hout, -⟩ := hactive
  rw [(contains_blockBefore_iff hline).mpr h] at hout
  exact nomatch hout

/-- A literal line is given as it is, and nothing is recorded for it. -/
theorem getElem?_outcomes_of_isLiteral (files : FileView) (env : Environment) (document : Path)
    {lines : List Text} {i : Nat} {line : Text} (hline : lines[i]? = some line)
    (h : IsLiteral lines i) :
    (env.outcomes files document lines)[i]? = some (.ok ([line], [])) := by
  rw [getElem?_outcomes, hline, Option.map_some, (contains_blockBefore_iff hline).mpr h]
  rfl

/-! ## §3. Documents that differ behind a paragraph only. -/

/-- At every position both lists have the same line, or both have a line of the run behind `j`. -/
def SameButBehind (j : Nat) (lines lines' : List Text) : Prop :=
  ∀ i, lines'[i]? = lines[i]? ∨ (RunsBehind lines j i ∧ RunsBehind lines' j i)

section Same

variable {lines lines' : List Text} {j : Nat} {opener : Text}

/-- Positions up to the paragraph itself have the same lines. -/
theorem SameButBehind.getElem?_eq (h : SameButBehind j lines lines') {i : Nat} (hi : i ≤ j) :
    lines'[i]? = lines[i]? := by
  rcases h i with hsame | ⟨⟨hlt, -⟩, -⟩
  · exact hsame
  · omega

/-- Up to the paragraph the same blocks are open. -/
theorem SameButBehind.blockBefore_eq_of_le (h : SameButBehind j lines lines') {i : Nat}
    (hi : i ≤ j) : blockBefore lines' i = blockBefore lines i := by
  have htake : lines'.take i = lines.take i := by
    apply List.ext_getElem?
    intro k
    by_cases hk : k < i
    · rw [List.getElem?_take_of_lt hk, List.getElem?_take_of_lt hk]
      exact h.getElem?_eq (by omega)
    · rw [List.getElem?_take_eq_none (by omega), List.getElem?_take_eq_none (by omega)]
  unfold blockBefore
  rw [htake]

/-- The paragraph opens a block in the other document as well. -/
theorem SameButBehind.opensBlock (h : SameButBehind j lines lines')
    (hopener : OpensBlock lines j opener) : OpensBlock lines' j opener := by
  have hline : lines'[j]? = some opener := (h.getElem?_eq (Nat.le_refl j)).trans hopener.line
  refine ⟨hline, ?_, hopener.opens⟩
  rw [← contains_blockBefore_iff hline, h.blockBefore_eq_of_le (Nat.le_refl j),
    contains_blockBefore_iff hopener.line]
  exact hopener.outside

theorem blockBefore_succ (lines : List Text) (i : Nat) :
    blockBefore lines (i + 1) =
      lines[i]?.toList.foldl LiteralBlock.next (blockBefore lines i) := by
  unfold blockBefore
  rw [List.take_add_one, List.foldl_append]

/-- A literal line leaves the open block as it is. -/
theorem blockBefore_succ_of_isLiteral {lines : List Text} {i : Nat} (h : IsLiteral lines i)
    (hi : i < lines.length) : blockBefore lines (i + 1) = blockBefore lines i := by
  have hline : lines[i]? = some lines[i] := List.getElem?_eq_getElem hi
  rw [blockBefore_succ, hline]
  show (blockBefore lines i).next lines[i] = _
  unfold LiteralBlock.next
  rw [if_pos ((contains_blockBefore_iff hline).mpr h)]

/-- **The same blocks are open everywhere**: what stands behind the paragraph neither closes its
block nor opens another one. -/
theorem SameButBehind.blockBefore_eq (h : SameButBehind j lines lines')
    (hopener : OpensBlock lines j opener) (i : Nat) :
    blockBefore lines' i = blockBefore lines i := by
  induction i with
  | zero => rfl
  | succ i ih =>
      rcases h i with hsame | ⟨hrun, hrun'⟩
      · rw [blockBefore_succ, blockBefore_succ, ih, hsame]
      · -- Both lines belong to the open block, which therefore stays.
        have hliteral' := (h.opensBlock hopener).isLiteral hrun'
        rw [blockBefore_succ_of_isLiteral hliteral' hrun'.lt_length,
          blockBefore_succ_of_isLiteral (hopener.isLiteral hrun) hrun.lt_length, ih]

/-- **The same lines are active.** -/
theorem SameButBehind.activeAt_iff (h : SameButBehind j lines lines')
    (hopener : OpensBlock lines j opener) (i : Nat) (arguments : Text) :
    ActiveAt lines' i arguments ↔ ActiveAt lines i arguments := by
  rcases h i with hsame | ⟨hrun, hrun'⟩
  · unfold ActiveAt
    rw [h.blockBefore_eq hopener i, hsame]
  · exact iff_of_false (not_activeAt_of_isLiteral ((h.opensBlock hopener).isLiteral hrun'))
      (not_activeAt_of_isLiteral (hopener.isLiteral hrun))

/-- **Apart from the lines that they give, the two documents do the same.** -/
theorem SameButBehind.trace_outcomes_eq (h : SameButBehind j lines lines')
    (hopener : OpensBlock lines j opener) (files : FileView) (env : Environment)
    (document : Path) :
    (env.outcomes files document lines').map LineOutcome.trace =
      (env.outcomes files document lines).map LineOutcome.trace := by
  apply List.ext_getElem?
  intro i
  rw [List.getElem?_map, List.getElem?_map]
  rcases h i with hsame | ⟨hrun, hrun'⟩
  · rw [getElem?_outcomes, getElem?_outcomes, hsame, h.blockBefore_eq hopener i]
  · obtain ⟨line, hline⟩ := hrun.exists_line
    obtain ⟨line', hline'⟩ := hrun'.exists_line
    -- A literal line records nothing and does not fail, whatever it says.
    rw [getElem?_outcomes_of_isLiteral files env document hline (hopener.isLiteral hrun),
      getElem?_outcomes_of_isLiteral files env document hline'
        ((h.opensBlock hopener).isLiteral hrun')]
    rfl

end Same

/-! ## §4. Protection. -/

/-- **A paragraph that ends in two colons protects its block.** Such a line, outside literal blocks
and no explicit markup, opens a block exactly if it does not begin with two dots. If it does not,
every line of the run behind it is given as it is, no failure is reported for it, and whatever
stands there instead leads to the same targets, the same dependencies and the same failure: it is
never taken for a directive. -/
theorem paragraph_protects_block (files : FileView) (env : Environment) (document : Path)
    (source : Text) {j : Nat} {opener : Text} (hopener : (Text.lines source)[j]? = some opener)
    (hout : ¬ IsLiteral (Text.lines source) j) (hcolons : [':', ':'] <:+ Text.trim opener)
    (hmarkup : isExplicitMarkup opener = false) :
    (LiteralBlock.opens opener = true ↔ ¬ ['.', '.'] <+: Text.trim opener) ∧
    (¬ ['.', '.'] <+: Text.trim opener →
      (∀ text, (env.expand files document source).2 = .ok text →
        ∃ groups : List (List Text), groups.length = (Text.lines source).length ∧
          text = Environment.assemble source groups.flatten ∧
          ∀ i line, RunsBehind (Text.lines source) j i → (Text.lines source)[i]? = some line →
            groups[i]? = some [line]) ∧
      (∀ i error, RunsBehind (Text.lines source) j i →
        (env.expand files document source).2 = .error error → error.line ≠ i + 1) ∧
      ∀ source', SameButBehind j (Text.lines source) (Text.lines source') →
        (∀ path, path ∈ env.targets document source' ↔ path ∈ env.targets document source) ∧
        (env.expand files document source').1 = (env.expand files document source).1 ∧
        ∀ error, (env.expand files document source').2 = .error error ↔
          (env.expand files document source).2 = .error error) := by
  have hiff := opens_iff_of_colons hcolons hmarkup
  refine ⟨hiff, fun hdots => ?_⟩
  have hblock : OpensBlock (Text.lines source) j opener := ⟨hopener, hout, hiff.mpr hdots⟩
  refine ⟨fun text hok => ?_, fun i error hrun herror => ?_, fun source' hsame => ?_⟩
  · obtain ⟨groups, hgroups, htext⟩ :=
      (Environment.expand_eq_ok_iff_gather files env document source text).mp hok
    refine ⟨groups, ?_, htext, fun i line hrun hline => ?_⟩
    · rw [← hgroups.length_eq, Environment.outcomes, List.length_mapIdx]
    · exact getElem?_groups hgroups (getElem?_outcomes_of_isLiteral files env document hline
        (hblock.isLiteral hrun))
  · -- A failure is a fault of an active line, and a literal line is not active.
    obtain ⟨k, fault, ⟨arguments, hactive, -⟩, -, rfl⟩ :=
      (expand_eq_error_iff files env document source error).mp herror
    intro hnumber
    obtain rfl : k = i := Nat.succ.inj hnumber
    exact not_activeAt_of_isLiteral (hblock.isLiteral hrun) hactive
  · have htrace := hsame.trace_outcomes_eq hblock files env document
    obtain ⟨hpaths, herrors⟩ := gather_congr_trace _ _ htrace
    refine ⟨fun path => ?_, ?_, fun error => ?_⟩
    · rw [Environment.mem_targets_iff, Environment.mem_targets_iff]
      unfold TargetAt
      simp only [hsame.activeAt_iff hblock]
    · rw [Environment.expand_eq, Environment.expand_eq]
      exact congrArg env.recordAll hpaths
    · rw [Environment.expand_eq_error_iff_gather, Environment.expand_eq_error_iff_gather]
      exact herrors error

/-! ## §5. Two paragraphs. -/

/-- A document with the given paragraph and the given sample behind it. -/
def sampleDocument (paragraph sample : Text) : Text := paragraph ++ "\n\n   ".toList ++ sample

/-- Behind a paragraph and a blank line a deeper line belongs to the run. -/
theorem runsBehind_two {paragraph last : Text}
    (hdeep : Text.indentWidth paragraph < Text.indentWidth last) :
    RunsBehind [paragraph, [], last] 0 2 := by
  refine ⟨by omega, paragraph, rfl, fun k hk hk' => ?_⟩
  obtain rfl | rfl : k = 1 ∨ k = 2 := by omega
  · exact ⟨[], rfl, Or.inl rfl⟩
  · exact ⟨last, rfl, Or.inr hdeep⟩

theorem sameButBehind_two {paragraph last last' : Text}
    (hdeep : Text.indentWidth paragraph < Text.indentWidth last)
    (hdeep' : Text.indentWidth paragraph < Text.indentWidth last') :
    SameButBehind 0 [paragraph, [], last] [paragraph, [], last'] := by
  intro i
  by_cases hi : i = 2
  · subst hi
    exact Or.inr ⟨runsBehind_two hdeep, runsBehind_two hdeep'⟩
  · refine Or.inl ?_
    cases i with
    | zero => rfl
    | succ i =>
        cases i with
        | zero => rfl
        | succ i =>
            obtain ⟨i, rfl⟩ := Nat.exists_eq_succ_of_ne_zero (show i ≠ 0 by omega)
            rfl

/-- A sample that would name a file is no different from one without an argument: neither is
reported or recorded. -/
theorem paragraph_protects_block_usage :
    RunsBehind (Text.lines (sampleDocument "Usage::".toList intactDocument)) 0 2 ∧
    (∀ error, (docsEnvironment.expand singleFile (.ofText "index".toList)
        (sampleDocument "Usage::".toList intactDocument)).2 = .error error → error.line ≠ 3) ∧
    (docsEnvironment.expand singleFile (.ofText "index".toList)
        (sampleDocument "Usage::".toList ".. autoyaml::".toList)).1 =
      (docsEnvironment.expand singleFile (.ofText "index".toList)
        (sampleDocument "Usage::".toList intactDocument)).1 := by
  have hlines : Text.lines (sampleDocument "Usage::".toList intactDocument) =
      ["Usage::".toList, [], "   .. autoyaml:: a.yaml".toList] := by decide
  have hlines' : Text.lines (sampleDocument "Usage::".toList ".. autoyaml::".toList) =
      ["Usage::".toList, [], "   .. autoyaml::".toList] := by decide
  have hrun : RunsBehind (Text.lines (sampleDocument "Usage::".toList intactDocument)) 0 2 := by
    rw [hlines]
    exact runsBehind_two (by decide)
  have hsame : SameButBehind 0 (Text.lines (sampleDocument "Usage::".toList intactDocument))
      (Text.lines (sampleDocument "Usage::".toList ".. autoyaml::".toList)) := by
    rw [hlines, hlines']
    exact sameButBehind_two (by decide) (by decide)
  have hparagraph : (Text.lines (sampleDocument "Usage::".toList intactDocument))[0]? =
      some "Usage::".toList := by
    rw [hlines]
    rfl
  obtain ⟨-, hprotects⟩ := paragraph_protects_block singleFile docsEnvironment
    (.ofText "index".toList) _ hparagraph (not_isLiteral_zero _) (by decide) (by decide)
  obtain ⟨-, hquiet, hequal⟩ := hprotects (by decide)
  exact ⟨hrun, fun error => hquiet 2 error hrun, (hequal _ hsame).2.1⟩

/-- A paragraph that begins with a relative path ends in two colons and is no explicit markup; the
sample behind it is expanded all the same and its file is recorded. -/
theorem dotted_paragraph_is_expanded :
    ¬ IsLiteral (Text.lines (sampleDocument "../config::".toList intactDocument)) 0 ∧
    [':', ':'] <:+ Text.trim "../config::".toList ∧
    isExplicitMarkup "../config::".toList = false ∧
    RunsBehind (Text.lines (sampleDocument "../config::".toList intactDocument)) 0 2 ∧
    (docsEnvironment.expand singleFile (.ofText "index".toList)
      (sampleDocument "../config::".toList intactDocument)).2 =
        .ok "../config::\n\n   A".toList ∧
    (docsEnvironment.expand singleFile (.ofText "index".toList)
      (sampleDocument "../config::".toList intactDocument)).1.dependencies.toList =
        [.ofText "/docs/a.yaml".toList] := by
  have hlines : Text.lines (sampleDocument "../config::".toList intactDocument) =
      ["../config::".toList, [], "   .. autoyaml:: a.yaml".toList] := by decide
  refine ⟨not_isLiteral_zero _, by decide, by decide, ?_, by decide +kernel, by decide +kernel⟩
  rw [hlines]
  exact runsBehind_two (by decide)

end YamlDocs
