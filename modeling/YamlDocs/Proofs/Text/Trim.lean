/-
  YamlDocs.Proofs.Text.Trim
  ────────────────────────────────
  **WHAT TRIMMING LEAVES, AND WORDS.**

  White space goes at both ends and nothing else does: in front, trimming
  passes over white space up to the first other character; at the end it
  keeps everything up to the last one.  So a text is white space around what
  trimming leaves, which has none at its ends (`trim_eq_iff`).

  Words are cut at white space one character at a time
  (`words_append_of_isBlank`).  Said without cutting, a text is white space,
  a word up to the next white space or the end, and so on (`HasWords`), and
  every text can be read so in just one way (`words_eq_iff`).

  Runs of other characters than white space are cut off in the same way
  (`span_append`).
-/
import YamlDocs.Text.Blank
import Mathlib.Data.List.Basic
import Mathlib.Data.List.DropRight
import Mathlib.Data.List.TakeDrop
import Mathlib.Data.List.TakeWhile

namespace YamlDocs.Text

/-! ## §1. Trimming and other runs. -/

/-- **A run of characters is cut off** in front of the first one that does not belong to it. -/
theorem span_append {test : Char → Bool} {run rest : Text} (hrun : ∀ c ∈ run, test c = true)
    (hrest : ∀ c ∈ rest.head?, test c = false) : (run ++ rest).span test = (run, rest) := by
  rw [List.span_eq_takeWhile_dropWhile, List.takeWhile_append_of_pos hrun,
    List.dropWhile_append_of_pos hrun]
  cases rest with
  | nil => simp
  | cons c rest =>
      have hc : ¬ test c = true := by simp [hrest c rfl]
      rw [List.takeWhile_cons_of_neg hc, List.dropWhile_cons_of_neg hc, List.append_nil]

/-- A run and what stands behind it are read off the text that both make up. -/
theorem run_append_inj {test : Char → Bool} {run rest run' rest' : Text}
    (hrun : ∀ c ∈ run, test c = true) (hrest : ∀ c ∈ rest.head?, test c = false)
    (hrun' : ∀ c ∈ run', test c = true) (hrest' : ∀ c ∈ rest'.head?, test c = false)
    (h : run ++ rest = run' ++ rest') : run = run' ∧ rest = rest' := by
  have hspan := span_append hrun hrest
  rw [h, span_append hrun' hrest', Prod.mk.injEq] at hspan
  exact ⟨hspan.1.symm, hspan.2.symm⟩

/-- What stands in front of the first occurrence of a character is read off a text. -/
theorem append_cons_inj {c : Char} {before after before' after' : Text} (hbefore : c ∉ before)
    (hbefore' : c ∉ before') (h : before ++ c :: after = before' ++ c :: after') :
    before = before' ∧ after = after' := by
  have hrun {text : Text} (htext : c ∉ text) : ∀ d ∈ text, (d != c) = true := fun d hd =>
    bne_iff_ne.mpr fun heq => htext (heq ▸ hd)
  have hrest (text : Text) : ∀ d ∈ (c :: text).head?, (d != c) = false := fun d hd =>
    bne_eq_false_iff_eq.mpr (Option.some.inj hd).symm
  obtain ⟨hsame, hcons⟩ :=
    run_append_inj (hrun hbefore) (hrest after) (hrun hbefore') (hrest after') h
  exact ⟨hsame, (List.cons.inj hcons).2⟩

/-- Trimming at the front passes over white space. -/
theorem trimStart_append {blanks : Text} (h : ∀ c ∈ blanks, isBlank c = true) (rest : Text) :
    trimStart (blanks ++ rest) = trimStart rest :=
  List.dropWhile_append_of_pos h

/-- Trimming at the end keeps a beginning. -/
theorem trimEnd_prefix (text : Text) : trimEnd text <+: text :=
  List.rdropWhile_prefix isBlank text

/-- Trimming at the end stops at a character that is no white space. -/
theorem trimEnd_append_cons (before after : Text) {c : Char} (hc : isBlank c = false) :
    trimEnd (before ++ c :: after) = before ++ c :: trimEnd after := by
  have hreverse : (before ++ c :: after).reverse = after.reverse ++ (c :: before.reverse) := by
    simp
  have hstop : (c :: before.reverse).dropWhile isBlank = c :: before.reverse :=
    List.dropWhile_cons_of_neg (by simp [hc])
  unfold trimEnd trimStart
  rw [hreverse, List.dropWhile_append, hstop]
  split
  case isTrue hempty =>
    rw [List.isEmpty_iff.mp hempty]
    simp
  case isFalse => simp

/-- The text is `core` with white space around it, and `core` has none at its ends. -/
structure IsCore (core text : Text) : Prop where
  around : ∃ before after, (∀ c ∈ before, isBlank c = true) ∧ (∀ c ∈ after, isBlank c = true) ∧
    text = before ++ core ++ after
  first : ∀ c ∈ core.head?, isBlank c = false
  last : ∀ c ∈ core.getLast?, isBlank c = false

theorem trimEnd_of_blank {blanks : Text} (h : ∀ c ∈ blanks, isBlank c = true) :
    trimEnd blanks = [] :=
  List.rdropWhile_eq_nil_iff.mpr h

/-- Trimming takes white space away from the end of a text that has none there. -/
theorem trimEnd_append_of_blank {text blanks : Text} (htext : ∀ c ∈ text.getLast?, isBlank c = false)
    (h : ∀ c ∈ blanks, isBlank c = true) : trimEnd (text ++ blanks) = text := by
  rcases List.eq_nil_or_concat text with rfl | ⟨init, c, rfl⟩
  · exact trimEnd_of_blank h
  · have hc : isBlank c = false := htext c (by simp)
    rw [List.concat_eq_append, List.append_assoc, List.singleton_append,
      trimEnd_append_cons init blanks hc, trimEnd_of_blank h]

theorem IsCore.trim_eq {core text : Text} (h : IsCore core text) : trim text = core := by
  obtain ⟨before, after, hbefore, hafter, rfl⟩ := h.around
  unfold trim
  rw [List.append_assoc, trimStart_append hbefore]
  cases core with
  | nil =>
      have hstart : trimStart ([] ++ after) = [] := List.dropWhile_eq_nil_iff.mpr hafter
      rw [hstart]
      rfl
  | cons c core =>
      have hstop : ¬ isBlank c = true := by simp [h.first c rfl]
      have hstart : trimStart (c :: core ++ after) = c :: core ++ after :=
        List.dropWhile_cons_of_neg hstop
      rw [hstart, trimEnd_append_of_blank h.last hafter]

theorem isCore_trim (text : Text) : IsCore (trim text) text where
  around := by
    refine ⟨text.takeWhile isBlank, (trimStart text).rtakeWhile isBlank,
      fun c hc => List.mem_takeWhile_imp hc, fun c hc => List.mem_rtakeWhile_imp hc, ?_⟩
    have hend : trim text ++ (trimStart text).rtakeWhile isBlank = trimStart text :=
      List.rdropWhile_append_rtakeWhile
    rw [List.append_assoc, hend]
    exact List.takeWhile_append_dropWhile.symm
  first := by
    intro c hc
    have hprefix : trim text <+: text.dropWhile isBlank := trimEnd_prefix (trimStart text)
    obtain ⟨rest, hrest⟩ := List.head?_eq_some_iff.mp hc
    obtain ⟨after, hafter⟩ := hprefix
    have hhead := List.head?_dropWhile_not isBlank text
    rw [← hafter, hrest] at hhead
    exact hhead
  last := by
    intro c hc
    have hne : trim text ≠ [] := by
      intro hnil
      rw [hnil] at hc
      exact absurd hc (Option.not_mem_none c)
    have hlast := List.rdropWhile_last_not isBlank (trimStart text) hne
    rw [List.getLast?_eq_some_getLast hne] at hc
    rw [← Option.some.inj hc]
    exact Bool.eq_false_iff.mpr hlast

/-- **Trimming leaves the core of a text**, and a text has only one. -/
theorem trim_eq_iff {text core : Text} : trim text = core ↔ IsCore core text := by
  constructor
  · rintro rfl
    exact isCore_trim text
  · exact IsCore.trim_eq

/-! ## §2. Words. -/

/-- A text that is a single word: not empty and without white space. -/
structure IsWord (text : Text) : Prop where
  ne_nil : text ≠ []
  unbroken : ∀ c ∈ text, isBlank c = false

theorem isWord_iff {text : Text} :
    IsWord text ↔ text ≠ [] ∧ text.all (fun c => !isBlank c) = true := by
  constructor
  · intro h
    exact ⟨h.ne_nil, by simpa using h.unbroken⟩
  · intro h
    obtain ⟨hne, hall⟩ := h
    exact ⟨hne, by simpa using hall⟩

instance : DecidablePred IsWord := fun _ => decidable_of_iff _ isWord_iff.symm

/-- **White space separates words.** -/
theorem words_append_of_isBlank {c : Char} (hc : isBlank c = true) (before after : Text) :
    words (before ++ c :: after) = words before ++ words after := by
  unfold words
  rw [List.splitOnP_append_cons before after hc, List.filter_append]

/-- White space in front opens no word. -/
theorem words_cons_of_isBlank {c : Char} (hc : isBlank c = true) (rest : Text) :
    words (c :: rest) = words rest :=
  words_append_of_isBlank hc [] rest

theorem words_of_isWord {word : Text} (h : IsWord word) : words word = [word] := by
  unfold words
  rw [List.splitOnP_eq_singleton h.unbroken]
  simp [h.ne_nil]

/-- White space alone holds no word. -/
theorem words_of_blank {blanks : Text} (h : ∀ c ∈ blanks, isBlank c = true) :
    words blanks = [] := by
  induction blanks with
  | nil => rfl
  | cons c rest ih =>
      obtain ⟨hc, hrest⟩ := List.forall_mem_cons.mp h
      rw [words_cons_of_isBlank hc, ih hrest]

/-- Words that are neither none nor one are two or more. -/
theorem one_lt_length_of_ne {found : List Text} (hnil : found ≠ [])
    (hone : ∀ word, found ≠ [word]) : 1 < found.length := by
  have hzero : found.length ≠ 0 := fun h => hnil (List.length_eq_zero_iff.mp h)
  have hsingle : found.length ≠ 1 := by
    intro h
    obtain ⟨word, hword⟩ := List.length_eq_one_iff.mp h
    exact hone word hword
  omega

/-! ## §3. The words of a text, from left to right. -/

/-- The text holds these words, in order, with white space around them. -/
inductive HasWords : Text → List Text → Prop
  | blank (blanks : Text) (hblanks : ∀ c ∈ blanks, isBlank c = true) : HasWords blanks []
  | word (blanks word rest : Text) (others : List Text)
      (hblanks : ∀ c ∈ blanks, isBlank c = true) (hword : IsWord word)
      (hstop : ∀ c ∈ rest.head?, isBlank c = true) (hothers : HasWords rest others) :
      HasWords (blanks ++ word ++ rest) (word :: others)

/-- The words that a text holds are those that are cut out of it. -/
theorem HasWords.words_eq {text : Text} {found : List Text} (h : HasWords text found) :
    words text = found := by
  induction h with
  | blank blanks hblanks => exact words_of_blank hblanks
  | word blanks word rest others hblanks hword hstop _ ih =>
      -- White space in front is passed over, one character at a time.
      induction blanks with
      | cons c blanks ihblanks =>
          obtain ⟨hc, hrest⟩ := List.forall_mem_cons.mp hblanks
          show words (c :: (blanks ++ word ++ rest)) = _
          rw [words_cons_of_isBlank hc]
          exact ihblanks hrest
      | nil =>
          cases rest with
          | nil =>
              rw [← ih, List.append_nil]
              exact words_of_isWord hword
          | cons c rest =>
              have hc : isBlank c = true := hstop c rfl
              rw [← ih, List.nil_append, words_append_of_isBlank hc, words_of_isWord hword,
                words_cons_of_isBlank hc]
              rfl

/-- White space in front of a text leaves its words. -/
theorem HasWords.cons_blank {text : Text} {found : List Text} {c : Char} (h : HasWords text found)
    (hc : isBlank c = true) : HasWords (c :: text) found := by
  cases h with
  | blank blanks hblanks => exact .blank (c :: text) (List.forall_mem_cons.mpr ⟨hc, hblanks⟩)
  | word blanks word rest others hblanks hword hstop hothers =>
      exact .word (c :: blanks) word rest others (List.forall_mem_cons.mpr ⟨hc, hblanks⟩) hword
        hstop hothers

/-- A character in front that is no white space belongs to the first word, or is one. -/
theorem HasWords.exists_cons {text : Text} {found : List Text} {c : Char} (h : HasWords text found)
    (hc : isBlank c = false) : ∃ found', HasWords (c :: text) found' := by
  have hsingle : IsWord [c] := ⟨List.cons_ne_nil _ _, List.forall_mem_singleton.mpr hc⟩
  by_cases hstop : ∀ d ∈ text.head?, isBlank d = true
  · exact ⟨[c] :: found, .word [] [c] text found (fun _ hd => absurd hd List.not_mem_nil) hsingle
      hstop h⟩
  · cases h with
    | blank blanks hblanks =>
        exact absurd (fun d hd => hblanks d (List.mem_of_head? hd)) hstop
    | word blanks word rest others hblanks hword hrest hothers =>
        cases blanks with
        | cons d blanks =>
            refine absurd (fun e he => ?_) hstop
            obtain rfl : d = e := Option.some.inj he
            exact hblanks d List.mem_cons_self
        | nil =>
            have hlonger : IsWord (c :: word) :=
              ⟨List.cons_ne_nil _ _, List.forall_mem_cons.mpr ⟨hc, hword.unbroken⟩⟩
            exact ⟨(c :: word) :: others, .word [] (c :: word) rest others hblanks hlonger hrest
              hothers⟩

theorem exists_hasWords (text : Text) : ∃ found, HasWords text found := by
  induction text with
  | nil => exact ⟨[], .blank [] (fun _ hc => absurd hc List.not_mem_nil)⟩
  | cons c rest ih =>
      obtain ⟨found, hfound⟩ := ih
      cases hc : isBlank c with
      | true => exact ⟨found, hfound.cons_blank hc⟩
      | false => exact hfound.exists_cons hc

/-- **The words that are cut out of a text are those that it holds**, and no others. -/
theorem words_eq_iff {text : Text} {found : List Text} :
    words text = found ↔ HasWords text found := by
  constructor
  · rintro rfl
    obtain ⟨found, hfound⟩ := exists_hasWords text
    rw [hfound.words_eq]
    exact hfound
  · exact HasWords.words_eq

end YamlDocs.Text
