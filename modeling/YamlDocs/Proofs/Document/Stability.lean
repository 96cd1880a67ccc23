/-
  YamlDocs.Proofs.Document.Stability
  ────────────────────────────────
  **EXPANDED DOCUMENTS STAY AS THEY ARE.**

  A document without directives expands to a text in which only line feeds
  end lines.  Its lines are a beginning of the document's, so whether a line
  is literal is decided as before and the text has no directives either
  (`DirectiveFree.of_isPrefix`).  A document of this form expands to itself
  (`expand_of_onlyFeeds`); so expanding once brings a document without
  directives into a form that no further expansion changes
  (`expand_is_stable`).
-/
import YamlDocs.Proofs.Document.Passing

namespace YamlDocs

/-! ## §1. Fewer lines. -/

/-- What is open in front of a line depends on the lines before it. -/
theorem blockBefore_of_isPrefix {lines others : List Text} (h : lines <+: others) {i : Nat}
    (hi : i ≤ lines.length) : blockBefore lines i = blockBefore others i := by
  unfold blockBefore
  rw [List.prefix_iff_eq_take.mp h, List.take_take, Nat.min_eq_left hi]

/-- **A beginning of lines without directives has none.** -/
theorem DirectiveFree.of_isPrefix {lines others : List Text} (h : lines <+: others)
    (hfree : DirectiveFree others) : DirectiveFree lines := by
  rw [directiveFree_iff_contains] at hfree ⊢
  intro i line hline hout
  have hi : i < lines.length := (List.getElem?_eq_some_iff.mp hline).1
  have hother : others[i]? = some line := by
    obtain ⟨behind, rfl⟩ := h
    rw [List.getElem?_append_left hi, hline]
  rw [blockBefore_of_isPrefix h (Nat.le_of_lt hi)] at hout
  exact hfree i line hother hout

/-! ## §2. Documents that expand to themselves. -/

/-- What lines are assembled to has no other breaks than line feeds. -/
theorem onlyFeeds_assemble (source : Text) :
    Text.OnlyFeeds (Environment.assemble source (Text.lines source)) := by
  unfold Environment.assemble
  refine Text.onlyFeeds_append
    (Text.onlyFeeds_join fun line hline => Text.breakFree_of_mem_lines hline) ?_
  split
  case isTrue => exact fun c hc _ => List.mem_singleton.mp hc
  case isFalse => exact fun c hc => nomatch hc

/-- The assembled text has the lines of the document, without an empty last one in some cases. -/
theorem lines_assemble_isPrefix (source : Text) :
    Text.lines (Environment.assemble source (Text.lines source)) <+: Text.lines source := by
  rw [lines_assemble]
  split
  case isTrue => exact List.dropLast_prefix _
  case isFalse => exact List.prefix_rfl

/-- **A document without directives and without other breaks than line feeds expands to
itself.** -/
theorem expand_of_onlyFeeds {source : Text} (hfeeds : Text.OnlyFeeds source)
    (hfree : DirectiveFree (Text.lines source)) (files : FileView) (env : Environment)
    (document : Path) : env.expand files document source = (env, .ok source) := by
  rw [expand_of_directiveFree hfree files env document]
  unfold Environment.assemble
  rw [Text.join_lines hfeeds]

/-- **Expanding a document without directives is stable.** There is one text to which the document
expands in every environment and file system; it is the document itself if only line feeds end its
lines. This text expands to itself, and neither expansion changes the environment. -/
theorem expand_is_stable (source : Text) (hfree : DirectiveFree (Text.lines source)) :
    ∃ text, (Text.OnlyFeeds source → text = source) ∧
      ∀ (files : FileView) (env : Environment) (document : Path),
        env.expand files document source = (env, .ok text) ∧
        env.expand files document text = (env, .ok text) := by
  refine ⟨Environment.assemble source (Text.lines source), ?_, ?_⟩
  · intro hfeeds
    exact Text.join_lines hfeeds
  · intro files env document
    have hagain : DirectiveFree
        (Text.lines (Environment.assemble source (Text.lines source))) :=
      DirectiveFree.of_isPrefix (lines_assemble_isPrefix source) hfree
    exact ⟨expand_of_directiveFree hfree files env document,
      expand_of_onlyFeeds (onlyFeeds_assemble source) hagain files env document⟩

/-! ## §3. Two documents. -/

/-- A sample in a literal block, and line feeds only. -/
def quotedDocument : Text := "Usage::\n\n   .. autoyaml:: a.yaml\n\nEnd\n\n".toList

/-- The sample stays as it is; a document with four kinds of break gets its final form at once. -/
theorem expand_is_stable_samples :
    DirectiveFree (Text.lines quotedDocument) ∧ Text.OnlyFeeds quotedDocument ∧
    docsEnvironment.expand singleFile (.ofText "index".toList) quotedDocument =
      (docsEnvironment, .ok quotedDocument) ∧
    DirectiveFree (Text.lines mixedDocument) ∧ ¬ Text.OnlyFeeds mixedDocument ∧
    ∃ text, docsEnvironment.expand singleFile (.ofText "index".toList) mixedDocument =
        (docsEnvironment, .ok text) ∧
      docsEnvironment.expand singleFile (.ofText "index".toList) text =
        (docsEnvironment, .ok text) := by
  have hsample : DirectiveFree (Text.lines quotedDocument) := by decide +kernel
  have hfeeds : Text.OnlyFeeds quotedDocument := by decide +kernel
  have hmixed : DirectiveFree (Text.lines mixedDocument) := by decide +kernel
  obtain ⟨kept, hkept, hboth⟩ := expand_is_stable quotedDocument hsample
  obtain rfl := hkept hfeeds
  obtain ⟨text, -, hexpand⟩ := expand_is_stable mixedDocument hmixed
  exact ⟨hsample, hfeeds, (hboth singleFile docsEnvironment (.ofText "index".toList)).1, hmixed,
    by decide +kernel, text, hexpand singleFile docsEnvironment (.ofText "index".toList)⟩

end YamlDocs
