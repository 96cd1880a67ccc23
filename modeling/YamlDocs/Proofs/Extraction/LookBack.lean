/-
  YamlDocs.Proofs.Extraction.LookBack
  ────────────────────────────────
  **WHAT THE SCAN EXTRACTS, WITHOUT A STATE.**

  The scan decides every line from a state that it carries along.  Here the
  decision is read off the text: a block is open at a line if a delimiter
  line stands before it and all lines in between are marked, and the
  parameter part is open if the same holds of a parameter line of an open
  block:

      state ≠ outside      ↔  BlockOpen
      state = inParameter  ↔  ParameterOpen

  `extract_eq_flatten_contribution` then gives the documentation of a text as
  the concatenation of what each of its lines contributes.
-/
import YamlDocs.Proofs.Extraction.Scan

namespace YamlDocs

/-! ## §1. Open blocks, read off the lines. -/

namespace MarkerSet

/-- Whether a line begins with one of the three markers. -/
def isMarked (markers : MarkerSet) (line : Text) : Bool :=
  markers.docDelimiter.isPrefixOf line || markers.docParameter.isPrefixOf line ||
    markers.comment.isPrefixOf line

/-- Whether a line begins with the parameter marker and not with the delimiter. -/
def isParameter (markers : MarkerSet) (line : Text) : Bool :=
  markers.docParameter.isPrefixOf line && !markers.docDelimiter.isPrefixOf line

end MarkerSet

/-- A delimiter line stands before position `i`, and all lines in between are marked. -/
def BlockOpen (markers : MarkerSet) (lines : List Text) : Nat → Prop :=
  Since (HoldsAt markers.docDelimiter.isPrefixOf lines) (HoldsAt markers.isMarked lines)

/-- A parameter line of an open block stands before position `i`, and all lines in between are
marked. -/
def ParameterOpen (markers : MarkerSet) (lines : List Text) : Nat → Prop :=
  Since (fun j => HoldsAt markers.isParameter lines j ∧ BlockOpen markers lines j)
    (HoldsAt markers.isMarked lines)

instance (markers : MarkerSet) (lines : List Text) : DecidablePred (BlockOpen markers lines) :=
  fun i => inferInstanceAs (Decidable (Since _ _ i))

instance (markers : MarkerSet) (lines : List Text) : DecidablePred (ParameterOpen markers lines) :=
  fun i => inferInstanceAs (Decidable (Since _ _ i))

/-- What the line at position `i` contributes. -/
def contribution (markers : MarkerSet) (lines : List Text) (i : Nat) (line : Text) : List Piece :=
  if markers.docDelimiter.isPrefixOf line then
    [⟨.blockStart, Text.dropOneSpace (line.drop markers.docDelimiter.length)⟩]
  else if BlockOpen markers lines i ∧ markers.docParameter.isPrefixOf line then
    [.separator,
      ⟨if ParameterOpen markers lines i then .parameterContinuation else .parameter, line.drop 2⟩]
  else if BlockOpen markers lines i ∧ markers.comment.isPrefixOf line then
    [.separator, ⟨.comment, Text.dropOneSpace (line.drop markers.comment.length)⟩]
  else [.separator]

/-! ## §2. One step. -/

section Step

variable (markers : MarkerSet) (state : ScanState) (line : Text)

/-- A delimiter line opens a block, a marked line keeps an open one. -/
theorem scanLine_ne_outside_iff :
    (scanLine markers state line).2 ≠ .outside ↔
      markers.docDelimiter.isPrefixOf line = true ∨
        (state ≠ .outside ∧ markers.isMarked line = true) := by
  have hrule := scanLine_rule markers state line
  generalize scanLine markers state line = step at hrule
  obtain ⟨pieces, next⟩ := step
  unfold MarkerSet.isMarked
  cases hrule with
  | delimiter hd => cases state <;> simp [hd]
  | outside hd => simp [hd]
  | parameter hd hs hp => simp [hs, hp]
  | comment hd hs hp hc => simp [hs, hc]
  | other hd hs hp hc => simp [hd, hp, hc]

/-- A parameter line of an open block opens the parameter part, a marked line keeps it. -/
theorem scanLine_eq_inParameter_iff :
    (scanLine markers state line).2 = .inParameter ↔
      (markers.isParameter line = true ∧ state ≠ .outside) ∨
        (state = .inParameter ∧ markers.isMarked line = true) := by
  have hrule := scanLine_rule markers state line
  generalize scanLine markers state line = step at hrule
  obtain ⟨pieces, next⟩ := step
  unfold MarkerSet.isParameter MarkerSet.isMarked
  cases hrule with
  | delimiter hd => cases state <;> simp [hd]
  | outside hd => simp
  | parameter hd hs hp => simp [hd, hs, hp]
  | comment hd hs hp hc => simp [hp, hc]
  | other hd hs hp hc => simp [hd, hp, hc]

end Step

/-! ## §3. The meaning of the state. -/

section State

variable (markers : MarkerSet) (lines : List Text)

/-- **The scan is inside a block exactly where one is open.** -/
theorem scanState_ne_outside_iff {i : Nat} (hi : i ≤ lines.length) :
    scanState markers .outside (lines.take i) ≠ .outside ↔ BlockOpen markers lines i := by
  induction i with
  | zero => exact iff_of_false (fun h => h rfl) (not_since_zero _ _)
  | succ i ih =>
      have hline : lines[i]? = some lines[i] := List.getElem?_eq_getElem hi
      unfold scanState at ih ⊢
      rw [foldl_take_succ _ _ hline, scanLine_ne_outside_iff, ih (Nat.le_of_succ_le hi)]
      unfold BlockOpen
      rw [since_succ, holdsAt_iff hline, holdsAt_iff hline]

/-- **The scan is inside a parameter part exactly where one is open.** -/
theorem scanState_eq_inParameter_iff {i : Nat} (hi : i ≤ lines.length) :
    scanState markers .outside (lines.take i) = .inParameter ↔
      ParameterOpen markers lines i := by
  induction i with
  | zero => exact iff_of_false (fun h => nomatch h) (not_since_zero _ _)
  | succ i ih =>
      have hle : i ≤ lines.length := Nat.le_of_succ_le hi
      have hline : lines[i]? = some lines[i] := List.getElem?_eq_getElem hi
      have hblock := scanState_ne_outside_iff markers lines hle
      unfold scanState at ih hblock ⊢
      rw [foldl_take_succ _ _ hline, scanLine_eq_inParameter_iff, ih hle, hblock]
      unfold ParameterOpen
      rw [since_succ, holdsAt_iff hline, holdsAt_iff hline]

/-- What the scan takes from a line is what the line contributes by its position. -/
theorem scanLine_eq_contribution {i : Nat} {line : Text} (hline : lines[i]? = some line) :
    (scanLine markers (scanState markers .outside (lines.take i)) line).1 =
      contribution markers lines i line := by
  have hi : i ≤ lines.length := Nat.le_of_lt (List.getElem?_eq_some_iff.mp hline).1
  have hblock := scanState_ne_outside_iff markers lines hi
  have hparameter := scanState_eq_inParameter_iff markers lines hi
  generalize scanState markers .outside (lines.take i) = state at hblock hparameter ⊢
  have hrule := scanLine_rule markers state line
  generalize scanLine markers state line = step at hrule
  obtain ⟨pieces, next⟩ := step
  unfold contribution
  simp only [← hblock, ← hparameter]
  cases hrule with
  | delimiter hd => rw [if_pos hd]
  | outside hd => simp [hd]
  | parameter hd hs hp =>
      rw [if_neg (by simp [hd]), if_pos ⟨hs, hp⟩]
      cases state <;> rfl
  | comment hd hs hp hc =>
      rw [if_neg (by simp [hd]), if_neg (by simp [hp]), if_pos ⟨hs, hc⟩]
  | other hd hs hp hc => simp [hd, hp, hc]

end State

/-! ## §4. Texts. -/

/-- **The documentation of a text, line by line**: the concatenation of what its lines contribute,
each entry with the number of its line and the given path. -/
theorem extract_eq_flatten_contribution (markers : MarkerSet) (source : Path) (text : Text) :
    extract markers source text =
      ((Text.lines text).mapIdx fun i line =>
        (contribution markers (Text.lines text) i line).map
          (Piece.entry source (i + 1))).flatten := by
  rw [extract_eq_flatten]
  congr 1
  refine List.mapIdx_eq_mapIdx_iff.mpr fun i hi => ?_
  rw [scanLine_eq_contribution markers (Text.lines text) (List.getElem?_eq_getElem hi)]

/-- A second delimiter line does not close the parameter part. -/
example : ParameterOpen .default ["### a".toList, "## b".toList, "### c".toList] 3 := by decide

end YamlDocs
