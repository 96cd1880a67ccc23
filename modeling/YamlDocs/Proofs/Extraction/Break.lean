/-
  YamlDocs.Proofs.Extraction.Break
  ────────────────────────────────
  **ENTRIES ARE LINES.**

  Whatever a line contributes to the documentation is taken out of this
  line, so no entry holds a line break (`breakFree_of_mem_extract`).  Every
  line contributes something (`scanLine_ne_nil`).
-/
import YamlDocs.Proofs.Extraction.Scan
import YamlDocs.Proofs.Text.Lines

namespace YamlDocs

theorem mem_of_mem_dropOneSpace {text : Text} {c : Char} (h : c ∈ Text.dropOneSpace text) :
    c ∈ text := by
  unfold Text.dropOneSpace at h
  split at h
  case h_1 rest => exact List.mem_cons_of_mem ' ' h
  case h_2 => exact h

section Line

variable {markers : MarkerSet} {state : ScanState} {line : Text}

/-- **A line gives only its own characters.** -/
theorem mem_of_mem_scanLine {piece : Piece} (hpiece : piece ∈ (scanLine markers state line).1)
    {c : Char} (hc : c ∈ piece.text) : c ∈ line := by
  have hrule := scanLine_rule markers state line
  generalize (scanLine markers state line).1 = pieces at hrule hpiece
  generalize (scanLine markers state line).2 = next at hrule
  have hseparator : c ∉ Piece.separator.text := List.not_mem_nil
  cases hrule with
  | delimiter =>
      obtain rfl := List.mem_singleton.mp hpiece
      exact List.mem_of_mem_drop (mem_of_mem_dropOneSpace hc)
  | outside =>
      obtain rfl := List.mem_singleton.mp hpiece
      exact absurd hc hseparator
  | parameter =>
      rcases List.mem_pair.mp hpiece with rfl | rfl
      · exact absurd hc hseparator
      · exact List.mem_of_mem_drop hc
  | comment =>
      rcases List.mem_pair.mp hpiece with rfl | rfl
      · exact absurd hc hseparator
      · exact List.mem_of_mem_drop (mem_of_mem_dropOneSpace hc)
  | other =>
      obtain rfl := List.mem_singleton.mp hpiece
      exact absurd hc hseparator

/-- **Every line contributes something.** -/
theorem scanLine_ne_nil : (scanLine markers state line).1 ≠ [] := by
  have hrule := scanLine_rule markers state line
  generalize (scanLine markers state line).1 = pieces at hrule ⊢
  generalize (scanLine markers state line).2 = next at hrule
  cases hrule <;> exact List.cons_ne_nil _ _

end Line

section Entries

variable {markers : MarkerSet} {source : Path} {text : Text} {entry : Entry}

/-- **An entry is a piece of a line**, with the number of the line and the path of the text. -/
theorem exists_piece_of_mem_extract (h : entry ∈ extract markers source text) :
    ∃ i line state piece, (Text.lines text)[i]? = some line ∧
      piece ∈ (scanLine markers state line).1 ∧ entry = Piece.entry source (i + 1) piece := by
  rw [extract_eq_flatten, List.mem_flatten] at h
  obtain ⟨group, hgroup, hentry⟩ := h
  obtain ⟨i, hi, rfl⟩ := List.mem_mapIdx.mp hgroup
  obtain ⟨piece, hpiece, rfl⟩ := List.mem_map.mp hentry
  exact ⟨i, _, _, piece, List.getElem?_eq_getElem hi, hpiece, rfl⟩

/-- **No entry holds a line break.** -/
theorem breakFree_of_mem_extract (h : entry ∈ extract markers source text) :
    Text.BreakFree entry.text := by
  obtain ⟨i, line, state, piece, hline, hpiece, rfl⟩ := exists_piece_of_mem_extract h
  intro c hc
  have hfree := Text.breakFree_of_mem_lines (List.mem_of_getElem? hline)
  exact hfree c (mem_of_mem_scanLine hpiece hc)

theorem source_of_mem_extract (h : entry ∈ extract markers source text) :
    entry.source = source := by
  obtain ⟨i, line, state, piece, -, -, rfl⟩ := exists_piece_of_mem_extract h
  rfl

end Entries

/-- A text that is not empty gives an entry. -/
theorem extract_ne_nil (markers : MarkerSet) (source : Path) {text : Text} (h : text ≠ []) :
    extract markers source text ≠ [] := by
  obtain ⟨line, rest, hlines⟩ := List.exists_cons_of_ne_nil (Text.lines_ne_nil h)
  rw [extract_eq_flatten, hlines, List.mapIdx_cons, List.flatten_cons]
  intro hnil
  have hfirst := (List.append_eq_nil_iff.mp hnil).1
  exact scanLine_ne_nil (List.map_eq_nil_iff.mp hfirst)

end YamlDocs
