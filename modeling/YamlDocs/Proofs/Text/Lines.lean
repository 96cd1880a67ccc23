/-
  YamlDocs.Proofs.Text.Lines
  ────────────────────────────────
  **CUTTING INTO LINES AND PUTTING TOGETHER.**

  No line holds a line break (`breakFree_of_mem_lines`), and lines that are
  written with a line feed behind each of them are cut into the same lines
  again (`lines_unlines`).  A line feed behind every line is a line feed
  between them and one more at the end, unless there is no line at all
  (`join_append_feed`).  Line feeds between lines alone lose an empty last
  line (`lines_join`).  A text without other breaks is put together again
  from its lines and from whether it ends the last of them (`join_lines`).
-/
import YamlDocs.Text.Lines
import Mathlib.Data.List.Basic

namespace YamlDocs.Text

/-- A text without line breaks. -/
def BreakFree (text : Text) : Prop := ∀ c ∈ text, isLineBreak c = false

instance : DecidablePred BreakFree := fun text => List.decidableBAll _ text

/-! ## §1. Lines hold no line breaks. -/

theorem breakFree_nil : BreakFree [] := fun _ hc => nomatch hc

/-- A character in front of the first line. -/
theorem mem_consToFirstLine {c : Char} {texts : List Text} {line : Text}
    (h : line ∈ consToFirstLine c texts) :
    (∃ first, line = c :: first ∧ (first = [] ∨ first ∈ texts)) ∨ line ∈ texts := by
  cases texts with
  | nil => exact Or.inl ⟨[], List.mem_singleton.mp h, Or.inl rfl⟩
  | cons first rest =>
      rcases List.mem_cons.mp h with rfl | hrest
      · exact Or.inl ⟨first, rfl, Or.inr List.mem_cons_self⟩
      · exact Or.inr (List.mem_cons_of_mem first hrest)

/-- **No line holds a line break.** -/
theorem breakFree_of_mem_lines {text line : Text} (h : line ∈ lines text) : BreakFree line := by
  induction text using lines.induct generalizing line with
  | case1 => exact nomatch h
  | case2 rest ih =>
      rw [lines] at h
      rcases List.mem_cons.mp h with rfl | hrest
      · exact breakFree_nil
      · exact ih hrest
  | case3 c rest hpair hbreak ih =>
      rw [lines.eq_3 c rest hpair, if_pos hbreak] at h
      rcases List.mem_cons.mp h with rfl | hrest
      · exact breakFree_nil
      · exact ih hrest
  | case4 c rest hpair hbreak ih =>
      rw [lines.eq_3 c rest hpair, if_neg hbreak] at h
      rcases mem_consToFirstLine h with ⟨first, rfl, hfirst⟩ | hrest
      · have hfree : BreakFree first := by
          rcases hfirst with rfl | hmem
          · exact breakFree_nil
          · exact ih hmem
        exact List.forall_mem_cons.mpr ⟨by simpa using hbreak, hfree⟩
      · exact ih hrest

/-! ## §2. Reading what was written. -/

/-- A character that is no line break belongs to the first line. -/
theorem lines_cons {c : Char} (hc : isLineBreak c = false) (rest : Text) :
    lines (c :: rest) = consToFirstLine c (lines rest) := by
  have hpair : ∀ others : Text, c = '\r' → rest = '\n' :: others → False := by
    rintro others rfl -
    exact nomatch hc
  rw [lines.eq_3 c rest hpair, hc]
  rfl

/-- **A line feed ends the first line.** -/
theorem lines_append_feed {line : Text} (hline : BreakFree line) (rest : Text) :
    lines (line ++ '\n' :: rest) = line :: lines rest := by
  induction line with
  | nil => rfl
  | cons c line ih =>
      obtain ⟨hc, hline⟩ := List.forall_mem_cons.mp hline
      rw [List.cons_append, lines_cons hc, ih hline]
      rfl

theorem unlines_cons (line : Text) (rest : List Text) :
    unlines (line :: rest) = line ++ '\n' :: unlines rest := by
  simp [unlines]

/-- **Lines with a line feed behind each of them are read back.** -/
theorem lines_unlines {texts : List Text} (h : ∀ text ∈ texts, BreakFree text) :
    lines (unlines texts) = texts := by
  induction texts with
  | nil => rfl
  | cons line rest ih =>
      obtain ⟨hline, hrest⟩ := List.forall_mem_cons.mp h
      rw [unlines_cons, lines_append_feed hline, ih hrest]

/-- A text without line breaks is one line, unless it is empty. -/
theorem lines_of_breakFree {text : Text} (hfree : BreakFree text) (hne : text ≠ []) :
    lines text = [text] := by
  induction text with
  | nil => exact absurd rfl hne
  | cons c rest ih =>
      obtain ⟨hc, hrest⟩ := List.forall_mem_cons.mp hfree
      rw [lines_cons hc]
      cases rest with
      | nil => rfl
      | cons d rest =>
          rw [ih hrest (List.cons_ne_nil _ _)]
          rfl

/-- A text that is not empty has a line. -/
theorem lines_ne_nil {text : Text} (h : text ≠ []) : lines text ≠ [] := by
  cases text using lines.induct with
  | case1 => exact absurd rfl h
  | case2 rest =>
      rw [lines]
      exact List.cons_ne_nil _ _
  | case3 c rest hpair hbreak =>
      rw [lines.eq_3 c rest hpair, if_pos hbreak]
      exact List.cons_ne_nil _ _
  | case4 c rest hpair hbreak =>
      rw [lines.eq_3 c rest hpair, if_neg hbreak]
      cases lines rest with
      | nil => exact List.cons_ne_nil _ _
      | cons first others => exact List.cons_ne_nil _ _

/-! ## §3. Line feeds between lines and behind them. -/

theorem unlines_eq_nil_iff {texts : List Text} : unlines texts = [] ↔ texts = [] := by
  cases texts with
  | nil => exact iff_of_true rfl rfl
  | cons line rest => simp [unlines_cons]

theorem unlines_singleton (line : Text) : unlines [line] = line ++ ['\n'] :=
  List.flatMap_singleton _ _

theorem unlines_flatten (groups : List (List Text)) :
    unlines groups.flatten = (groups.map unlines).flatten := by
  induction groups with
  | nil => rfl
  | cons group rest ih =>
      rw [List.flatten_cons, List.map_cons, List.flatten_cons, ← ih]
      exact List.flatMap_append

/-- **Line feeds between lines and one at the end**: this is a line feed behind every line, if
there is a line. -/
theorem join_append_feed {texts : List Text} (h : texts ≠ []) :
    join ['\n'] texts ++ ['\n'] = unlines texts := by
  unfold join
  induction texts with
  | nil => exact absurd rfl h
  | cons line rest ih =>
      cases rest with
      | nil =>
          rw [unlines_singleton, List.intercalate_singleton]
      | cons next rest =>
          -- One line feed stands between the first two lines, the rest is as before.
          rw [List.intercalate_cons_cons, unlines_cons, ← ih (List.cons_ne_nil _ _)]
          simp

/-- **Lines with line feeds between them are read back**, apart from an empty one at the end, which
the last line feed does not open. -/
theorem lines_join {texts : List Text} (h : ∀ text ∈ texts, BreakFree text) :
    lines (join ['\n'] texts) =
      if texts.getLast? = some [] then texts.dropLast else texts := by
  unfold join
  induction texts with
  | nil => rfl
  | cons line rest ih =>
      obtain ⟨hline, hrest⟩ := List.forall_mem_cons.mp h
      cases rest with
      | nil =>
          rw [List.intercalate_singleton, List.getLast?_singleton]
          by_cases hempty : line = []
          · subst hempty
            rfl
          · rw [if_neg fun hlast => hempty (Option.some.inj hlast)]
            exact lines_of_breakFree hline hempty
      | cons next rest =>
          rw [List.intercalate_cons_cons, List.append_assoc, List.singleton_append,
            lines_append_feed hline, ih hrest, List.getLast?_cons_cons, List.dropLast_cons_cons]
          split
          case isTrue => rfl
          case isFalse => rfl

/-! ## §4. Texts with no other break than line feeds. -/

/-- A text in which a line feed is the only line break. -/
def OnlyFeeds (text : Text) : Prop := ∀ c ∈ text, isLineBreak c = true → c = '\n'

instance : DecidablePred OnlyFeeds := fun text => List.decidableBAll _ text

theorem BreakFree.onlyFeeds {text : Text} (h : BreakFree text) : OnlyFeeds text := by
  intro c hc hbreak
  rw [h c hc] at hbreak
  exact nomatch hbreak

theorem onlyFeeds_append {first second : Text} (hfirst : OnlyFeeds first)
    (hsecond : OnlyFeeds second) : OnlyFeeds (first ++ second) :=
  List.forall_mem_append.mpr ⟨hfirst, hsecond⟩

/-- Line feeds between lines are the only line breaks. -/
theorem onlyFeeds_join {texts : List Text} (h : ∀ text ∈ texts, BreakFree text) :
    OnlyFeeds (join ['\n'] texts) := by
  unfold join
  induction texts with
  | nil => exact fun c hc => nomatch hc
  | cons line rest ih =>
      obtain ⟨hline, hrest⟩ := List.forall_mem_cons.mp h
      cases rest with
      | nil =>
          rw [List.intercalate_singleton]
          exact hline.onlyFeeds
      | cons next rest =>
          rw [List.intercalate_cons_cons]
          refine onlyFeeds_append (onlyFeeds_append hline.onlyFeeds ?_) (ih hrest)
          exact fun c hc _ => List.mem_singleton.mp hc

theorem join_consToFirstLine (c : Char) (texts : List Text) :
    join ['\n'] (consToFirstLine c texts) = c :: join ['\n'] texts := by
  unfold join
  cases texts with
  | nil => rfl
  | cons line rest =>
      cases rest with
      | nil => simp [consToFirstLine]
      | cons next rest => simp [consToFirstLine, List.intercalate_cons_cons]

theorem join_nil_cons {texts : List Text} (h : texts ≠ []) :
    join ['\n'] ([] :: texts) = '\n' :: join ['\n'] texts := by
  obtain ⟨line, rest, rfl⟩ := List.exists_cons_of_ne_nil h
  unfold join
  rw [List.intercalate_cons_cons]
  rfl

theorem endsWithLineEnd_cons {rest : Text} (h : rest ≠ []) (c : Char) :
    endsWithLineEnd (c :: rest) = endsWithLineEnd rest := by
  obtain ⟨d, others, rfl⟩ := List.exists_cons_of_ne_nil h
  unfold endsWithLineEnd
  rw [List.getLast?_cons_cons]

/-- **A text without other breaks is its lines with line feeds between them**, and one behind them
if it ends its last line. -/
theorem join_lines {text : Text} (h : OnlyFeeds text) :
    join ['\n'] (lines text) ++ (if endsWithLineEnd text then ['\n'] else []) = text := by
  induction text with
  | nil => rfl
  | cons c rest ih =>
      obtain ⟨hc, hrest⟩ := List.forall_mem_cons.mp h
      cases hbreak : isLineBreak c with
      | true =>
          obtain rfl := hc hbreak
          show join ['\n'] ([] :: lines rest) ++ _ = _
          by_cases hne : rest = []
          · subst hne
            rfl
          · rw [join_nil_cons (lines_ne_nil hne), endsWithLineEnd_cons hne, List.cons_append,
              ih hrest]
      | false =>
          rw [lines_cons hbreak, join_consToFirstLine]
          by_cases hne : rest = []
          · -- A lone character that is no break does not end the line.
            subst hne
            have hend : endsWithLineEnd [c] = false := by
              rw [Bool.eq_false_iff]
              intro hend
              simp only [endsWithLineEnd, List.getLast?_singleton, Bool.or_eq_true,
                beq_iff_eq] at hend
              rcases hend with rfl | rfl
              · exact nomatch hbreak
              · exact nomatch hbreak
            rw [hend]
            rfl
          · rw [endsWithLineEnd_cons hne, List.cons_append, ih hrest]

end YamlDocs.Text
