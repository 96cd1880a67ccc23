/-
  YamlDocs.Proofs.Extraction.Rst
  ────────────────────────────────
  **THE RST FORMAT LOSES NO ENTRY.**

  The `rst` format writes a line feed behind the text of every entry
  (`Format.toRst_eq_unlines`).  Texts without line breaks are read back from
  it one by one, empty ones included (`lines_toRst`), and the entries of a
  scan have none: whatever the markers are, an entry is a part of one line.
  So cutting the output into lines gives the texts of the entries
  (`rst_loses_no_entry`).
-/
import YamlDocs.Extraction.Format
import YamlDocs.Proofs.Extraction.Break

namespace YamlDocs

/-! ## §1. Writing and reading. -/

theorem Format.toRst_eq_unlines (buffer : Buffer) :
    Format.toRst buffer = Text.unlines buffer.texts := by
  unfold Format.toRst Text.unlines Buffer.texts
  rw [List.flatMap_map]

/-- A text without line breaks in its entries is read back from the rst format. -/
theorem lines_toRst {buffer : Buffer} (h : ∀ entry ∈ buffer, Text.BreakFree entry.text) :
    Text.lines (Format.toRst buffer) = buffer.texts := by
  rw [Format.toRst_eq_unlines]
  exact Text.lines_unlines fun text htext => by
    obtain ⟨entry, hentry, rfl⟩ := List.mem_map.mp htext
    exact h entry hentry

/-! ## §2. The documentation of a text. -/

/-- The texts of a documentation do not depend on where it comes from. -/
theorem texts_extract (markers : MarkerSet) (source : Path) (yaml : Text) :
    (extract markers source yaml).texts =
      ((Text.lines yaml).mapIdx fun i line =>
        (scanLine markers (scanState markers .outside ((Text.lines yaml).take i)) line).1.map
          Piece.text).flatten := by
  unfold Buffer.texts
  rw [extract_eq_flatten, List.map_flatten, List.mapIdx_eq_zipIdx_map, List.mapIdx_eq_zipIdx_map,
    List.map_map]
  simp only [Function.comp_def, List.map_map]
  rfl

theorem toRst_extract_congr (markers : MarkerSet) (source other : Path) (yaml : Text) :
    Format.toRst (extract markers source yaml) = Format.toRst (extract markers other yaml) := by
  rw [Format.toRst_eq_unlines, Format.toRst_eq_unlines, texts_extract, texts_extract]

/-- Only the empty text has an empty documentation. -/
theorem toRst_extract_eq_nil_iff (markers : MarkerSet) (source : Path) (yaml : Text) :
    Format.toRst (extract markers source yaml) = [] ↔ yaml = [] := by
  constructor
  · intro h
    by_contra hne
    obtain ⟨entry, rest, hextract⟩ :=
      List.exists_cons_of_ne_nil (extract_ne_nil markers source hne)
    rw [hextract] at h
    simp [Format.toRst] at h
  · intro h
    subst h
    rfl

/-- **The rst format loses no entry.** With any markers, no entry of a documentation holds a line
break, and the lines of its rst format are the texts of its entries, one by one. -/
theorem rst_loses_no_entry (markers : MarkerSet) (source : Path) (yaml : Text) :
    (∀ entry ∈ extract markers source yaml, ∀ c ∈ entry.text, Text.isLineBreak c = false) ∧
    Text.lines (Format.toRst (extract markers source yaml)) =
      (extract markers source yaml).texts := by
  have hfree : ∀ entry ∈ extract markers source yaml, Text.BreakFree entry.text :=
    fun entry => breakFree_of_mem_extract
  exact ⟨hfree, lines_toRst hfree⟩

/-- Markers of which one holds a line break and so begins no line. -/
def brokenMarkers : MarkerSet :=
  ⟨['#'], ['#', '\n'], ['\u2028'], List.cons_ne_nil _ _, List.cons_ne_nil _ _,
    List.cons_ne_nil _ _⟩

/-- The separators at the end of a documentation are read back as empty lines, and an empty
documentation has no line. -/
theorem rst_loses_no_entry_at_end :
    (⟨['a'], .ofText "a.yaml".toList, 1, .blockStart⟩ : Entry) ∈
      extract brokenMarkers (.ofText "a.yaml".toList) "# a\u2028key: 1\n\n".toList ∧
    (∀ c ∈ ['a'], Text.isLineBreak c = false) ∧
    Text.lines (Format.toRst
      (extract brokenMarkers (.ofText "a.yaml".toList) "# a\u2028key: 1\n\n".toList)) =
        [['a'], [], []] ∧
    Text.lines (Format.toRst (extract brokenMarkers (.ofText "a.yaml".toList) [])) = [] := by
  obtain ⟨hfree, hlines⟩ :=
    rst_loses_no_entry brokenMarkers (.ofText "a.yaml".toList) "# a\u2028key: 1\n\n".toList
  obtain ⟨-, hempty⟩ := rst_loses_no_entry brokenMarkers (.ofText "a.yaml".toList) []
  have hentry : (⟨['a'], .ofText "a.yaml".toList, 1, .blockStart⟩ : Entry) ∈
      extract brokenMarkers (.ofText "a.yaml".toList) "# a\u2028key: 1\n\n".toList := by
    decide +kernel
  refine ⟨hentry, hfree _ hentry, hlines.trans ?_, hempty⟩
  decide +kernel

end YamlDocs
