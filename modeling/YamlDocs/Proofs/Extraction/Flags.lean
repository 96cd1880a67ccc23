/-
  YamlDocs.Proofs.Extraction.Flags
  ────────────────────────────────
  **THE SCAN WITH TWO FLAGS.**

  The design of the scan keeps two flags, one for an open block and one for
  its parameter part, and five rules in order of priority (`flagStep`).  The
  scan itself keeps one of three states and merges the two parameter rules:

      outside      (false, false)
      inBlock      (true,  false)
      inParameter  (true,  true)

  One step of the scan is one step of the flags (`flagStep_flags`), so by
  induction both make the same entries from the same lines and stay in
  corresponding states (`scan_refines_flags`).  No state stands for the pair
  (false, true), which is therefore never reached.
-/
import YamlDocs.Proofs.Extraction.Scan

namespace YamlDocs

/-! ## §1. The machine with two flags. -/

/-- Where a scan is, as two flags. -/
structure ScanFlags where
  /-- A block is open. -/
  inBlock : Bool
  /-- The parameter part of a block is open. -/
  inParameter : Bool
deriving DecidableEq, Repr

/-- What a line contributes and the flags behind it: the first of five rules that applies. -/
def flagStep (markers : MarkerSet) (flags : ScanFlags) (line : Text) : List Piece × ScanFlags :=
  if markers.docDelimiter.isPrefixOf line then
    -- The flag of the parameter part is left alone.
    ([⟨.blockStart, Text.dropOneSpace (line.drop markers.docDelimiter.length)⟩],
      { flags with inBlock := true })
  else if markers.docParameter.isPrefixOf line ∧ flags.inParameter then
    ([.separator, ⟨.parameterContinuation, line.drop 2⟩], flags)
  else if markers.docParameter.isPrefixOf line ∧ flags.inBlock then
    ([.separator, ⟨.parameter, line.drop 2⟩], { flags with inParameter := true })
  else if markers.comment.isPrefixOf line ∧ flags.inBlock then
    ([.separator, ⟨.comment, Text.dropOneSpace (line.drop markers.comment.length)⟩], flags)
  else
    ([.separator], ⟨false, false⟩)

/-- The entries of lines that begin at the given number, from the given flags. -/
def flagLines (markers : MarkerSet) (source : Path) : ScanFlags → Nat → List Text → Buffer
  | _, _, [] => []
  | flags, number, line :: rest =>
    (flagStep markers flags line).1.map (Piece.entry source number) ++
      flagLines markers source (flagStep markers flags line).2 (number + 1) rest

/-- The flags behind some lines. -/
def flagsBehind (markers : MarkerSet) (flags : ScanFlags) (lines : List Text) : ScanFlags :=
  lines.foldl (fun flags line => (flagStep markers flags line).2) flags

/-! ## §2. One step. -/

/-- The flags that a state stands for. -/
def ScanState.flags : ScanState → ScanFlags
  | .outside => ⟨false, false⟩
  | .inBlock => ⟨true, false⟩
  | .inParameter => ⟨true, true⟩

/-- Different states stand for different flags. -/
theorem ScanState.flags_eq_iff (state other : ScanState) :
    state.flags = other.flags ↔ state = other := by
  cases state <;> cases other <;> simp [flags]

theorem ScanState.inBlock_flags {state : ScanState} (h : state ≠ .outside) :
    state.flags.inBlock = true := by
  cases state with
  | outside => exact absurd rfl h
  | inBlock => rfl
  | inParameter => rfl

/-- **One step of the scan is one step of the flags.** -/
theorem flagStep_flags (markers : MarkerSet) (state : ScanState) (line : Text) :
    flagStep markers state.flags line =
      ((scanLine markers state line).1, (scanLine markers state line).2.flags) := by
  have hrule := scanLine_rule markers state line
  generalize scanLine markers state line = step at hrule ⊢
  obtain ⟨pieces, next⟩ := step
  unfold flagStep
  cases hrule with
  | delimiter hd =>
      rw [if_pos hd]
      cases state <;> rfl
  | outside hd => simp [hd, ScanState.flags]
  | parameter hd hs hp =>
      -- One rule of the scan stands for two rules of the flags.
      cases state with
      | outside => exact absurd rfl hs
      | inBlock => simp [hd, hp, ScanState.flags, ScanState.parameterKind, parameterWidth]
      | inParameter => simp [hd, hp, ScanState.flags, ScanState.parameterKind, parameterWidth]
  | comment hd hs hp hc => simp [hd, hp, hc, ScanState.inBlock_flags hs]
  | other hd hs hp hc => simp [hd, hp, hc, ScanState.flags]

/-! ## §3. All lines. -/

/-- **Entries**: from corresponding states both machines make the same ones. -/
theorem scanLines_eq_flagLines (markers : MarkerSet) (source : Path) (lines : List Text) :
    ∀ (state : ScanState) (number : Nat),
      scanLines markers source state number lines =
        flagLines markers source state.flags number lines := by
  induction lines with
  | nil => intro state number; rfl
  | cons line rest ih =>
      intro state number
      rw [flagLines, flagStep_flags, ← ih]
      rfl

/-- **States**: from corresponding states both machines reach corresponding ones. -/
theorem flagsBehind_flags (markers : MarkerSet) (lines : List Text) :
    ∀ state : ScanState,
      flagsBehind markers state.flags lines = (scanState markers state lines).flags := by
  induction lines with
  | nil => intro state; rfl
  | cons line rest ih =>
      intro state
      show flagsBehind markers (flagStep markers state.flags line).2 rest = _
      rw [flagStep_flags, ih]
      rfl

/-- **The scan refines the machine with two flags.** Over any lines, both make the same entries,
with kind, text, line and source. Behind every number of lines the scan is outside, in a block or
in a parameter part exactly where the flags are both down, only the first is up or both are up. The
second flag is never up alone. -/
theorem scan_refines_flags (markers : MarkerSet) (source : Path) (number : Nat)
    (lines : List Text) :
    scanLines markers source .outside number lines =
      flagLines markers source ⟨false, false⟩ number lines ∧
    ∀ i,
      (scanState markers .outside (lines.take i) = .outside ↔
        flagsBehind markers ⟨false, false⟩ (lines.take i) = ⟨false, false⟩) ∧
      (scanState markers .outside (lines.take i) = .inBlock ↔
        flagsBehind markers ⟨false, false⟩ (lines.take i) = ⟨true, false⟩) ∧
      (scanState markers .outside (lines.take i) = .inParameter ↔
        flagsBehind markers ⟨false, false⟩ (lines.take i) = ⟨true, true⟩) ∧
      flagsBehind markers ⟨false, false⟩ (lines.take i) ≠ ⟨false, true⟩ := by
  refine ⟨scanLines_eq_flagLines markers source lines .outside number, fun i => ?_⟩
  have hflags : flagsBehind markers ⟨false, false⟩ (lines.take i) =
      (scanState markers .outside (lines.take i)).flags :=
    flagsBehind_flags markers (lines.take i) .outside
  rw [hflags]
  refine ⟨?_, ?_, ?_, ?_⟩
  · exact (ScanState.flags_eq_iff _ .outside).symm
  · exact (ScanState.flags_eq_iff _ .inBlock).symm
  · exact (ScanState.flags_eq_iff _ .inParameter).symm
  · cases scanState markers .outside (lines.take i) <;> simp [ScanState.flags]

end YamlDocs
