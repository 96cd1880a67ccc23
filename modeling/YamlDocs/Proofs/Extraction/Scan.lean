/-
  YamlDocs.Proofs.Extraction.Scan
  ────────────────────────────────
  **THE RULES OF THE SCAN.**

  `ScanRule` lists the five rules with the condition under which each of them
  is the first that fits; `scanLine_rule` says that one step of the scan
  follows one of them.  Statements about a step are proved by cases over the
  rules and statements about a scan by induction over its lines:
  `extract_eq_flatten` cuts the documentation of a text into what each line
  contributes in the state that the lines before it leave behind.
-/
import YamlDocs.Extraction.Scan
import YamlDocs.Proofs.Text.Position
import Mathlib.Data.List.Basic

namespace YamlDocs

/-! ## §1. Prefixes. -/

theorem isPrefixOf?_eq_ite (marker line : Text) :
    marker.isPrefixOf? line =
      if marker.isPrefixOf line then some (line.drop marker.length) else none := by
  split
  case isTrue h =>
    obtain ⟨rest, rfl⟩ := List.isPrefixOf_iff_prefix.mp h
    rw [List.isPrefixOf?_eq_some_iff_append_eq, List.drop_left]
  case isFalse h =>
    rw [← Option.not_isSome_iff_eq_none, List.isSome_isPrefixOf?_eq_isPrefixOf]
    exact h

/-! ## §2. One step. -/

/-- **The five rules**: the state before a line, what the line contributes and the state behind
it. -/
inductive ScanRule (markers : MarkerSet) (line : Text) : ScanState → List Piece → ScanState → Prop
  | delimiter {state : ScanState} (hd : markers.docDelimiter.isPrefixOf line = true) :
      ScanRule markers line state
        [⟨.blockStart, Text.dropOneSpace (line.drop markers.docDelimiter.length)⟩] state.enterBlock
  | outside (hd : markers.docDelimiter.isPrefixOf line = false) :
      ScanRule markers line .outside [.separator] .outside
  | parameter {state : ScanState} (hd : markers.docDelimiter.isPrefixOf line = false)
      (hs : state ≠ .outside) (hp : markers.docParameter.isPrefixOf line = true) :
      ScanRule markers line state
        [.separator, ⟨state.parameterKind, line.drop parameterWidth⟩] .inParameter
  | comment {state : ScanState} (hd : markers.docDelimiter.isPrefixOf line = false)
      (hs : state ≠ .outside) (hp : markers.docParameter.isPrefixOf line = false)
      (hc : markers.comment.isPrefixOf line = true) :
      ScanRule markers line state
        [.separator, ⟨.comment, Text.dropOneSpace (line.drop markers.comment.length)⟩] state
  | other {state : ScanState} (hd : markers.docDelimiter.isPrefixOf line = false)
      (hs : state ≠ .outside) (hp : markers.docParameter.isPrefixOf line = false)
      (hc : markers.comment.isPrefixOf line = false) :
      ScanRule markers line state [.separator] .outside

/-- **Every step of the scan follows one of the rules.** -/
theorem scanLine_rule (markers : MarkerSet) (state : ScanState) (line : Text) :
    ScanRule markers line state (scanLine markers state line).1
      (scanLine markers state line).2 := by
  unfold scanLine
  rw [isPrefixOf?_eq_ite, isPrefixOf?_eq_ite]
  cases hd : markers.docDelimiter.isPrefixOf line
  case true => exact .delimiter hd
  case false =>
    by_cases hs : state = .outside
    · subst hs
      exact .outside hd
    · cases hp : markers.docParameter.isPrefixOf line
      case true =>
        simp only [hs, if_false, if_true, Bool.false_eq_true]
        exact .parameter hd hs hp
      case false =>
        cases hc : markers.comment.isPrefixOf line
        case true =>
          simp only [hs, if_false, if_true, Bool.false_eq_true]
          exact .comment hd hs hp hc
        case false =>
          simp only [hs, if_false, Bool.false_eq_true]
          exact .other hd hs hp hc

/-! ## §3. The whole scan. -/

/-- The state behind some lines. -/
def scanState (markers : MarkerSet) (state : ScanState) (lines : List Text) : ScanState :=
  lines.foldl (fun state line => (scanLine markers state line).2) state

theorem scanLines_cons (markers : MarkerSet) (source : Path) (state : ScanState) (number : Nat)
    (line : Text) (rest : List Text) :
    scanLines markers source state number (line :: rest) =
      (scanLine markers state line).1.map (Piece.entry source number) ++
        scanLines markers source (scanLine markers state line).2 (number + 1) rest := rfl

/-- **The scan of some lines goes on behind them**, in the state that they leave and with the
number of the line that follows. -/
theorem scanLines_append (markers : MarkerSet) (source : Path) (state : ScanState) (number : Nat)
    (front back : List Text) :
    scanLines markers source state number (front ++ back) =
      scanLines markers source state number front ++
        scanLines markers source (scanState markers state front) (number + front.length) back := by
  induction front generalizing state number with
  | nil => rfl
  | cons line front ih =>
      rw [List.cons_append, scanLines_cons, scanLines_cons, ih, List.append_assoc,
        List.length_cons, Nat.add_assoc, Nat.add_comm 1]
      rfl

/-- **A scan is the concatenation of what its lines contribute**, each in the state behind the
lines before it. -/
theorem scanLines_eq_flatten (markers : MarkerSet) (source : Path) (lines : List Text) :
    ∀ (state : ScanState) (number : Nat),
      scanLines markers source state number lines =
        (lines.mapIdx fun i line =>
          (scanLine markers (scanState markers state (lines.take i)) line).1.map
            (Piece.entry source (number + i))).flatten := by
  induction lines with
  | nil => intro state number; rfl
  | cons line rest ih =>
      intro state number
      rw [scanLines_cons, ih, List.mapIdx_cons, List.flatten_cons]
      simp only [Nat.add_right_comm number 1, Nat.add_assoc]
      rfl

theorem extract_eq_flatten (markers : MarkerSet) (source : Path) (text : Text) :
    extract markers source text =
      ((Text.lines text).mapIdx fun i line =>
        (scanLine markers (scanState markers .outside ((Text.lines text).take i)) line).1.map
          (Piece.entry source (i + 1))).flatten := by
  unfold extract
  rw [scanLines_eq_flatten]
  simp only [Nat.add_comm 1]

end YamlDocs
