/-
  YamlDocs.Proofs.Text.Newline
  ────────────────────────────────
  **UNIVERSAL NEWLINES.**

  Said in two passes, a text is first translated, so that a carriage return
  with its line feed and then every other carriage return becomes a line
  feed; what is left is cut at every single line break, and an empty piece
  behind the last break is no line.  The one pass of `lines` does the same
  (`lines_eq_cutAtBreaks`): the only break of two characters is gone after
  the translation, and every other character keeps its place.  So two texts
  with the same translation have the same lines and end alike
  (`lines_congr_translate`, `endsWithLineEnd_congr_translate`).
-/
import YamlDocs.Text.Lines
import Mathlib.Data.List.Basic

namespace YamlDocs.Text

/-! ## §1. The two passes. -/

/-- The text with a line feed in place of every carriage return that a line feed follows and that
line feed. -/
def replacePairs : Text → Text
  | [] => []
  | '\r' :: '\n' :: rest => '\n' :: replacePairs rest
  | c :: rest => c :: replacePairs rest

/-- A line feed in place of a carriage return. -/
def replaceReturn (c : Char) : Char := if c = '\r' then '\n' else c

/-- The text with line feeds in place of pairs first and of single carriage returns then. -/
def translate (text : Text) : Text := (replacePairs text).map replaceReturn

/-- The pieces between the single line breaks, without an empty one behind the last break. -/
def cutAtBreaks (text : Text) : List Text :=
  if (text.splitOnP isLineBreak).getLast? = some [] then (text.splitOnP isLineBreak).dropLast
  else text.splitOnP isLineBreak

/-! ## §2. Cutting, character by character. -/

/-- A break in front sets an empty line in front. -/
theorem cutAtBreaks_cons_of_break {c : Char} (hc : isLineBreak c = true) (rest : Text) :
    cutAtBreaks (c :: rest) = [] :: cutAtBreaks rest := by
  obtain ⟨first, others, hpieces⟩ :=
    List.exists_cons_of_ne_nil (List.splitOnP_ne_nil isLineBreak rest)
  unfold cutAtBreaks
  rw [List.splitOnP_cons_eq_if_modifyHead, if_pos hc, hpieces, List.getLast?_cons_cons,
    List.dropLast_cons_cons]
  split
  case isTrue => rfl
  case isFalse => rfl

/-- Any other character belongs to the first line. -/
theorem cutAtBreaks_cons {c : Char} (hc : isLineBreak c = false) (rest : Text) :
    cutAtBreaks (c :: rest) = consToFirstLine c (cutAtBreaks rest) := by
  obtain ⟨first, others, hpieces⟩ :=
    List.exists_cons_of_ne_nil (List.splitOnP_ne_nil isLineBreak rest)
  unfold cutAtBreaks
  rw [List.splitOnP_cons_eq_if_modifyHead, hc, if_neg Bool.false_ne_true, hpieces,
    List.modifyHead_cons]
  cases others with
  | nil =>
      -- With one piece it matters whether this piece was empty so far.
      cases first with
      | nil => rfl
      | cons d first => rfl
  | cons second others =>
      rw [List.getLast?_cons_cons, List.getLast?_cons_cons, List.dropLast_cons_cons,
        List.dropLast_cons_cons]
      split
      case isTrue => rfl
      case isFalse => rfl

/-! ## §3. One pass for two. -/

theorem translate_cons {c : Char} {rest : Text}
    (hpair : ∀ others : Text, c = '\r' → rest = '\n' :: others → False) :
    translate (c :: rest) = replaceReturn c :: translate rest := by
  unfold translate
  rw [replacePairs.eq_3 c rest hpair]
  rfl

/-- A translated break is a break. -/
theorem isLineBreak_replaceReturn (c : Char) : isLineBreak (replaceReturn c) = isLineBreak c := by
  unfold replaceReturn
  split
  case isTrue h =>
    rw [h]
    rfl
  case isFalse => rfl

/-- **The lines of a text are those of its translation, cut at every line break.** -/
theorem lines_eq_cutAtBreaks (text : Text) : lines text = cutAtBreaks (translate text) := by
  induction text using lines.induct with
  | case1 => rfl
  | case2 rest ih =>
      show [] :: lines rest = cutAtBreaks ('\n' :: translate rest)
      rw [cutAtBreaks_cons_of_break (by decide), ih]
  | case3 c rest hpair hbreak ih =>
      rw [lines.eq_3 c rest hpair, if_pos hbreak, translate_cons hpair,
        cutAtBreaks_cons_of_break (by rw [isLineBreak_replaceReturn, hbreak]), ih]
  | case4 c rest hpair hbreak ih =>
      have hkept : replaceReturn c = c := by
        unfold replaceReturn
        rw [if_neg]
        rintro rfl
        exact hbreak (by decide)
      rw [lines.eq_3 c rest hpair, if_neg hbreak, translate_cons hpair, hkept,
        cutAtBreaks_cons (Bool.eq_false_iff.mpr hbreak), ih]

/-! ## §4. Translating twice and the end of a text. -/

/-- No carriage return is left to be replaced. -/
theorem translate_translate (text : Text) : translate (translate text) = translate text := by
  have hnone : ∀ c ∈ translate text, c ≠ '\r' := by
    intro c hc
    obtain ⟨d, -, rfl⟩ := List.mem_map.mp hc
    unfold replaceReturn
    split
    case isTrue => decide
    case isFalse h => exact h
  generalize translate text = translated at hnone
  induction translated with
  | nil => rfl
  | cons c rest ih =>
      obtain ⟨hc, hrest⟩ := List.forall_mem_cons.mp hnone
      rw [translate_cons fun _ hreturn _ => hc hreturn, ih hrest]
      unfold replaceReturn
      rw [if_neg hc]

theorem getLast?_replacePairs (text : Text) : (replacePairs text).getLast? = text.getLast? := by
  induction text using replacePairs.induct with
  | case1 => rfl
  | case2 rest ih => simp [replacePairs, List.getLast?_cons, ih]
  | case3 c rest hpair ih =>
      rw [replacePairs.eq_3 c rest hpair, List.getLast?_cons, List.getLast?_cons, ih]

/-- **A text ends its last line where its translation does.** -/
theorem endsWithLineEnd_translate (text : Text) :
    endsWithLineEnd (translate text) = endsWithLineEnd text := by
  unfold endsWithLineEnd translate
  rw [List.getLast?_map, getLast?_replacePairs]
  cases text.getLast? with
  | none => rfl
  | some c =>
      simp only [Option.map_some, replaceReturn]
      split
      case isTrue h => simp [h]
      case isFalse => rfl

/-! ## §5. Texts with the same translation. -/

section Congruence

variable {text other : Text}

/-- **Texts with the same translation have the same lines.** -/
theorem lines_congr_translate (h : translate text = translate other) :
    lines text = lines other := by
  rw [lines_eq_cutAtBreaks, lines_eq_cutAtBreaks, h]

/-- Texts with the same translation end alike. -/
theorem endsWithLineEnd_congr_translate (h : translate text = translate other) :
    endsWithLineEnd text = endsWithLineEnd other := by
  rw [← endsWithLineEnd_translate text, ← endsWithLineEnd_translate other, h]

end Congruence

end YamlDocs.Text
