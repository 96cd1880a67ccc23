/-
  YamlDocs.Proofs.Text.Decomposition
  ────────────────────────────────
  **A TEXT IS ITS LINES AND WHAT ENDS THEM.**

  `Decomposes text parts` says without any scan how a text is made of lines:
  each has no line break in it and a terminator behind it, which may be
  missing at the end of the text; a carriage return is not torn from its line
  feed.  Read from the left, such a decomposition is forced at every
  character (`Decomposes.eq_endedLines`).  So every text has exactly one, and
  `lines` gives the lines of it (`lines_of_unique_decomposition`): nothing
  but terminators is left out, and a break at the end adds no line.
-/
import YamlDocs.Proofs.Text.Lines
import Mathlib.Logic.ExistsUnique

namespace YamlDocs.Text

/-! ## §1. Decompositions. -/

/-- A line and the characters that end it. -/
structure EndedLine where
  line : Text
  terminator : Text
deriving DecidableEq, Repr

/-- One line break, or a carriage return with a line feed. -/
def IsTerminator (text : Text) : Prop :=
  text = ['\r', '\n'] ∨ ∃ c, isLineBreak c = true ∧ text = [c]

/-- The parts make up the text as lines and their terminators. -/
structure Decomposes (text : Text) (parts : List EndedLine) : Prop where
  spells : (parts.flatMap fun part => part.line ++ part.terminator) = text
  breakFree : ∀ part ∈ parts, BreakFree part.line
  /-- Only the last terminator may be empty, and its line is not empty then. -/
  terminated : ∀ (i : Nat) (part : EndedLine), parts[i]? = some part →
    IsTerminator part.terminator ∨
      part.terminator = [] ∧ i + 1 = parts.length ∧ part.line ≠ []
  /-- A carriage return and the line feed behind it are one terminator. -/
  whole : ∀ (i : Nat) (part next : EndedLine), parts[i]? = some part →
    parts[i + 1]? = some next → part.terminator = ['\r'] → next ≠ ⟨[], ['\n']⟩

/-! ## §2. The first part. -/

/-- What a part is like in front of the given ones. -/
structure EndedLine.Fits (part : EndedLine) (rest : List EndedLine) : Prop where
  breakFree : BreakFree part.line
  terminated : IsTerminator part.terminator ∨
    part.terminator = [] ∧ rest = [] ∧ part.line ≠ []
  whole : part.terminator = ['\r'] → rest.head? ≠ some ⟨[], ['\n']⟩

theorem decomposes_nil : Decomposes [] [] where
  spells := rfl
  breakFree := fun _ hpart => nomatch hpart
  terminated := fun _ _ hpart => nomatch hpart
  whole := fun _ _ _ hpart => nomatch hpart

/-- **A decomposition is its first part and one of the remaining text.** -/
theorem decomposes_cons_iff {text : Text} {part : EndedLine} {rest : List EndedLine} :
    Decomposes text (part :: rest) ↔
      part.Fits rest ∧
        ∃ tail, Decomposes tail rest ∧ part.line ++ part.terminator ++ tail = text := by
  constructor
  · intro h
    obtain ⟨hline, hlines⟩ := List.forall_mem_cons.mp h.breakFree
    refine ⟨⟨hline, ?_, ?_⟩, _, ⟨rfl, hlines, ?_, ?_⟩, h.spells⟩
    · rcases h.terminated 0 part rfl with hterminator | ⟨hnone, hlast, hne⟩
      · exact Or.inl hterminator
      · have hrest : rest.length = 0 := by
          simpa using hlast.symm
        exact Or.inr ⟨hnone, List.length_eq_zero_iff.mp hrest, hne⟩
    · intro hreturn hfeed
      rw [List.head?_eq_getElem?] at hfeed
      exact h.whole 0 part _ rfl hfeed hreturn rfl
    · intro i other hother
      rcases h.terminated (i + 1) other hother with hterminator | ⟨hnone, hlast, hne⟩
      · exact Or.inl hterminator
      · rw [List.length_cons, Nat.add_right_cancel_iff] at hlast
        exact Or.inr ⟨hnone, hlast, hne⟩
    · intro i other next hother hnext
      exact h.whole (i + 1) other next hother hnext
  · intro h
    obtain ⟨hfits, tail, htail, rfl⟩ := h
    refine ⟨?_, List.forall_mem_cons.mpr ⟨hfits.breakFree, htail.breakFree⟩, ?_, ?_⟩
    · rw [List.flatMap_cons, htail.spells]
    · intro i other hother
      cases i with
      | zero =>
          obtain rfl : part = other := Option.some.inj hother
          rcases hfits.terminated with hterminator | ⟨hnone, rfl, hne⟩
          · exact Or.inl hterminator
          · exact Or.inr ⟨hnone, rfl, hne⟩
      | succ i =>
          rcases htail.terminated i other hother with hterminator | ⟨hnone, hlast, hne⟩
          · exact Or.inl hterminator
          · exact Or.inr ⟨hnone, congrArg Nat.succ hlast, hne⟩
    · intro i other next hother hnext hreturn
      cases i with
      | zero =>
          obtain rfl : part = other := Option.some.inj hother
          rintro rfl
          exact hfits.whole hreturn (List.head?_eq_getElem?.trans hnext)
      | succ i => exact htail.whole i other next hother hnext hreturn

/-- A line feed in front of a decomposed text is the terminator of an empty line. -/
theorem head?_of_decomposes_feed {tail : Text} {parts : List EndedLine}
    (h : Decomposes ('\n' :: tail) parts) : parts.head? = some ⟨[], ['\n']⟩ := by
  cases parts with
  | nil => exact nomatch h.spells
  | cons part rest =>
      obtain ⟨hfits, others, -, heq⟩ := decomposes_cons_iff.mp h
      obtain ⟨line, terminator⟩ := part
      cases line with
      | cons c line =>
          -- A line cannot begin with the line feed.
          obtain rfl : c = '\n' := (List.cons.inj heq).1
          exact nomatch (List.forall_mem_cons.mp hfits.breakFree).1
      | nil =>
          rcases hfits.terminated with (hpair | ⟨c, -, hbreak⟩) | ⟨-, -, hne⟩
          · obtain rfl : terminator = ['\r', '\n'] := hpair
            exact absurd (List.cons.inj heq).1 (by decide)
          · obtain rfl : terminator = [c] := hbreak
            obtain rfl : c = '\n' := (List.cons.inj heq).1
            rfl
          · exact absurd rfl hne

/-! ## §3. The decomposition that a scan finds. -/

/-- Puts a character in front of the first line, which is opened if there is none. -/
def consToFirstPart (c : Char) : List EndedLine → List EndedLine
  | [] => [⟨[c], []⟩]
  | part :: rest => ⟨c :: part.line, part.terminator⟩ :: rest

/-- The lines of a text with their terminators. -/
def endedLines : Text → List EndedLine
  | [] => []
  | '\r' :: '\n' :: rest => ⟨[], ['\r', '\n']⟩ :: endedLines rest
  | c :: rest =>
    if isLineBreak c then ⟨[], [c]⟩ :: endedLines rest else consToFirstPart c (endedLines rest)

theorem map_line_consToFirstPart (c : Char) (parts : List EndedLine) :
    (consToFirstPart c parts).map EndedLine.line =
      consToFirstLine c (parts.map EndedLine.line) := by
  cases parts with
  | nil => rfl
  | cons part rest => rfl

/-- **The scan finds the lines.** -/
theorem map_line_endedLines (text : Text) :
    (endedLines text).map EndedLine.line = lines text := by
  induction text using lines.induct with
  | case1 => rfl
  | case2 rest ih =>
      rw [endedLines, lines, List.map_cons, ih]
  | case3 c rest hpair hbreak ih =>
      rw [endedLines.eq_3 c rest hpair, lines.eq_3 c rest hpair, if_pos hbreak, if_pos hbreak,
        List.map_cons, ih]
  | case4 c rest hpair hbreak ih =>
      rw [endedLines.eq_3 c rest hpair, lines.eq_3 c rest hpair, if_neg hbreak, if_neg hbreak,
        map_line_consToFirstPart, ih]

/-- A character that is no line break in front of a decomposed text. -/
theorem Decomposes.consToFirstPart {c : Char} (hc : isLineBreak c = false) {text : Text}
    {parts : List EndedLine} (h : Decomposes text parts) :
    Decomposes (c :: text) (Text.consToFirstPart c parts) := by
  cases parts with
  | nil =>
      obtain rfl : [] = text := h.spells
      have hfits : EndedLine.Fits ⟨[c], []⟩ [] :=
        ⟨List.forall_mem_singleton.mpr hc, Or.inr ⟨rfl, rfl, List.cons_ne_nil _ _⟩, nofun⟩
      exact decomposes_cons_iff.mpr ⟨hfits, [], decomposes_nil, rfl⟩
  | cons part rest =>
      obtain ⟨hfits, tail, htail, rfl⟩ := decomposes_cons_iff.mp h
      refine decomposes_cons_iff.mpr ⟨⟨?_, ?_, hfits.whole⟩, tail, htail, rfl⟩
      · exact List.forall_mem_cons.mpr ⟨hc, hfits.breakFree⟩
      · rcases hfits.terminated with hterminator | ⟨hnone, hrest, -⟩
        · exact Or.inl hterminator
        · exact Or.inr ⟨hnone, hrest, List.cons_ne_nil _ _⟩

/-- **What the scan finds is a decomposition.** -/
theorem decomposes_endedLines (text : Text) : Decomposes text (endedLines text) := by
  induction text using lines.induct with
  | case1 => exact decomposes_nil
  | case2 rest ih =>
      have hfits : EndedLine.Fits ⟨[], ['\r', '\n']⟩ (endedLines rest) :=
        ⟨breakFree_nil, Or.inl (Or.inl rfl), fun hreturn => absurd hreturn (by decide)⟩
      rw [endedLines]
      exact decomposes_cons_iff.mpr ⟨hfits, rest, ih, rfl⟩
  | case3 c rest hpair hbreak ih =>
      have hfits : EndedLine.Fits ⟨[], [c]⟩ (endedLines rest) := by
        refine ⟨breakFree_nil, Or.inl (Or.inr ⟨c, hbreak, rfl⟩), ?_⟩
        intro hreturn hfeed
        -- The rest would begin with a line feed, so that the two were read as one terminator.
        obtain ⟨others, hothers⟩ := List.head?_eq_some_iff.mp hfeed
        rw [hothers] at ih
        obtain ⟨-, tail, -, rfl⟩ := decomposes_cons_iff.mp ih
        exact hpair tail (List.cons.inj hreturn).1 rfl
      rw [endedLines.eq_3 c rest hpair, if_pos hbreak]
      exact decomposes_cons_iff.mpr ⟨hfits, rest, ih, rfl⟩
  | case4 c rest hpair hbreak ih =>
      rw [endedLines.eq_3 c rest hpair, if_neg hbreak]
      exact ih.consToFirstPart (Bool.eq_false_iff.mpr hbreak)

/-! ## §4. There is no other. -/

theorem endedLines_cons {c : Char} (hc : isLineBreak c = false) (rest : Text) :
    endedLines (c :: rest) = consToFirstPart c (endedLines rest) := by
  have hpair : ∀ others : Text, c = '\r' → rest = '\n' :: others → False := by
    rintro others rfl -
    exact nomatch hc
  rw [endedLines.eq_3 c rest hpair, hc]
  rfl

/-- The scan takes a terminator as a whole. -/
theorem endedLines_terminator {terminator : Text} (h : IsTerminator terminator) {tail : Text}
    (hwhole : terminator = ['\r'] → tail.head? ≠ some '\n') :
    endedLines (terminator ++ tail) = ⟨[], terminator⟩ :: endedLines tail := by
  rcases h with rfl | ⟨c, hbreak, rfl⟩
  · rfl
  · have hpair : ∀ others : Text, c = '\r' → tail = '\n' :: others → False := by
      rintro others rfl rfl
      exact hwhole rfl rfl
    show endedLines (c :: tail) = _
    rw [endedLines.eq_3 c tail hpair, if_pos hbreak]

/-- The scan goes on in a line to its terminator. -/
theorem endedLines_append {line : Text} (hline : BreakFree line) {text terminator : Text}
    {rest : List EndedLine} (htext : endedLines text = ⟨[], terminator⟩ :: rest) :
    endedLines (line ++ text) = ⟨line, terminator⟩ :: rest := by
  induction line with
  | nil => exact htext
  | cons c line ih =>
      obtain ⟨hc, hline⟩ := List.forall_mem_cons.mp hline
      rw [List.cons_append, endedLines_cons hc, ih hline]
      rfl

/-- **A terminator ends the first line.** -/
theorem lines_append_terminator {line terminator tail : Text} (hline : BreakFree line)
    (h : IsTerminator terminator) (hwhole : terminator = ['\r'] → tail.head? ≠ some '\n') :
    lines (line ++ (terminator ++ tail)) = line :: lines tail := by
  rw [← map_line_endedLines, ← map_line_endedLines,
    endedLines_append hline (endedLines_terminator h hwhole), List.map_cons]

/-- The scan takes a text without line breaks as one line. -/
theorem endedLines_of_breakFree {line : Text} (hline : BreakFree line) (hne : line ≠ []) :
    endedLines line = [⟨line, []⟩] := by
  induction line with
  | nil => exact absurd rfl hne
  | cons c line ih =>
      obtain ⟨hc, hline⟩ := List.forall_mem_cons.mp hline
      rw [endedLines_cons hc]
      cases line with
      | nil => rfl
      | cons d line =>
          rw [ih hline (List.cons_ne_nil _ _)]
          rfl

/-- **Every decomposition is the one that the scan finds.** -/
theorem Decomposes.eq_endedLines {text : Text} {parts : List EndedLine}
    (h : Decomposes text parts) : parts = endedLines text := by
  -- On the parts: whatever the first one is, the scan takes it and goes on behind it.
  induction parts generalizing text with
  | nil =>
      obtain rfl : [] = text := h.spells
      rfl
  | cons part rest ih =>
      obtain ⟨hfits, tail, htail, rfl⟩ := decomposes_cons_iff.mp h
      have hrest : rest = endedLines tail := ih htail
      obtain ⟨line, terminator⟩ := part
      rcases hfits.terminated with hterminator | ⟨rfl, rfl, hne⟩
      · have hwhole : terminator = ['\r'] → tail.head? ≠ some '\n' := by
          intro hreturn hfeed
          obtain ⟨others, rfl⟩ := List.head?_eq_some_iff.mp hfeed
          exact hfits.whole hreturn (head?_of_decomposes_feed htail)
        rw [List.append_assoc,
          endedLines_append hfits.breakFree (endedLines_terminator hterminator hwhole), ← hrest]
      · -- Nothing follows a line without a terminator.
        obtain rfl : [] = tail := htail.spells
        rw [List.append_nil, List.append_nil, endedLines_of_breakFree hfits.breakFree hne]

/-- **The lines of a text are those of its only decomposition** into lines and terminators. -/
theorem lines_of_unique_decomposition (text : Text) :
    (∃! parts, Decomposes text parts) ∧
      ∃ parts, Decomposes text parts ∧ parts.map EndedLine.line = lines text := by
  have hscan : Decomposes text (endedLines text) := decomposes_endedLines text
  refine ⟨⟨endedLines text, hscan, ?_⟩, endedLines text, hscan, map_line_endedLines text⟩
  intro parts hparts
  exact hparts.eq_endedLines

/-- Two carriage returns, of which one has a line feed, and a last line without terminator. -/
example :
    endedLines "a\r\r\n\u2028b".toList =
      [⟨['a'], ['\r']⟩, ⟨[], ['\r', '\n']⟩, ⟨[], ['\u2028']⟩, ⟨['b'], []⟩] := by
  decide

end YamlDocs.Text
