/-
  YamlDocs.Proofs.Extraction.Append
  ────────────────────────────────
  **ADDING LINES TO A TEXT.**

  Two texts that meet at the end of a line have their lines one after the
  other (`Text.lines_append`).  The scan goes through them in turn: over the
  second text it starts in the state that the first one leaves, and counts on
  (`scanLines_append`).  So what stands before is extracted as if nothing
  followed, and behind a line without a marker nothing is left of the first
  text but the number of its lines (`extract_append`).
-/
import YamlDocs.Proofs.Extraction.LookBack
import YamlDocs.Proofs.Text.Lines

namespace YamlDocs

/-! ## §1. Texts that meet at the end of a line. -/

namespace Text

/-- The first text is empty or ends with a line break, and the second text does not complete this
break. -/
structure MeetAtLine (first second : Text) : Prop where
  ends : ∀ c ∈ first.getLast?, isLineBreak c = true
  whole : ¬ (first.getLast? = some '\r' ∧ second.head? = some '\n')

instance : DecidableRel MeetAtLine := fun first second =>
  decidable_of_iff (first.getLast?.all isLineBreak = true ∧
      ¬ (first.getLast? = some '\r' ∧ second.head? = some '\n'))
    ⟨fun h => ⟨(Option.all_eq_true _ _).mp h.1, h.2⟩,
      fun h => ⟨(Option.all_eq_true _ _).mpr h.1, h.2⟩⟩

/-- What meets the second text is the end of the first one. -/
theorem MeetAtLine.of_append (front : Text) {first second : Text}
    (h : MeetAtLine (front ++ first) second) : MeetAtLine first second := by
  obtain ⟨hends, hwhole⟩ := h
  by_cases hfirst : first = []
  · subst hfirst
    exact ⟨fun c hc => absurd hc (Option.not_mem_none c),
      fun hwhole => Option.some_ne_none _ hwhole.1.symm⟩
  · rw [List.getLast?_append_of_ne_nil front hfirst] at hends hwhole
    exact ⟨hends, hwhole⟩

theorem consToFirstLine_append (c : Char) {texts : List Text} (h : texts ≠ [])
    (others : List Text) :
    consToFirstLine c (texts ++ others) = consToFirstLine c texts ++ others := by
  obtain ⟨line, rest, rfl⟩ := List.exists_cons_of_ne_nil h
  rfl

/-- **Texts that meet at the end of a line have their lines one after the other.** -/
theorem lines_append {first second : Text} (h : MeetAtLine first second) :
    lines (first ++ second) = lines first ++ lines second := by
  induction first using lines.induct with
  | case1 => rfl
  | case2 rest ih =>
      have hrest : MeetAtLine rest second := MeetAtLine.of_append ['\r', '\n'] h
      show [] :: lines (rest ++ second) = [] :: (lines rest ++ lines second)
      rw [ih hrest]
  | case3 c rest hpair hbreak ih =>
      have hrest : MeetAtLine rest second := MeetAtLine.of_append [c] h
      -- A carriage return at the end of the first text stays a line break of its own.
      have hpair' : ∀ others : Text, c = '\r' → rest ++ second = '\n' :: others → False := by
        rintro others rfl hfeed
        cases rest with
        | nil => exact h.whole ⟨rfl, congrArg List.head? hfeed⟩
        | cons d rest =>
            obtain ⟨rfl, -⟩ := List.cons.inj hfeed
            exact hpair rest rfl rfl
      rw [List.cons_append, lines.eq_3 c _ hpair', if_pos hbreak, ih hrest,
        lines.eq_3 c rest hpair, if_pos hbreak, List.cons_append]
  | case4 c rest hpair hbreak ih =>
      have hrest : MeetAtLine rest second := MeetAtLine.of_append [c] h
      have hc : isLineBreak c = false := Bool.eq_false_iff.mpr hbreak
      -- The first text does not end here, for it ends with a line break.
      have hne : rest ≠ [] := by
        rintro rfl
        exact hbreak (h.ends c rfl)
      rw [List.cons_append, lines_cons hc, lines_cons hc, ih hrest,
        consToFirstLine_append c (lines_ne_nil hne)]

end Text

/-! ## §2. Scanning on. -/

namespace Entry

/-- The entry a number of lines further down. -/
def moveDown (count : Nat) (entry : Entry) : Entry := { entry with line := entry.line + count }

end Entry

section Scan

variable (markers : MarkerSet) (source : Path)

/-- **The number of the first line only counts.** -/
theorem scanLines_add (state : ScanState) (number count : Nat) (lines : List Text) :
    scanLines markers source state (number + count) lines =
      (scanLines markers source state number lines).map (Entry.moveDown count) := by
  induction lines generalizing state number with
  | nil => rfl
  | cons line rest ih =>
      rw [scanLines_cons, scanLines_cons, Nat.add_right_comm, ih, List.map_append, List.map_map]
      rfl

/-- **A last line without a marker closes every block.** -/
theorem scanState_eq_outside {lines : List Text}
    (h : ∀ line ∈ lines.getLast?, markers.isMarked line = false) :
    scanState markers .outside lines = .outside := by
  rcases List.eq_nil_or_concat lines with rfl | ⟨front, line, rfl⟩
  · rfl
  · have hline : markers.isMarked line = false := h line (by simp)
    unfold scanState
    rw [List.concat_eq_append, List.foldl_append, List.foldl_cons, List.foldl_nil]
    by_contra hopen
    have hmarked : markers.isMarked line = true := by
      rcases (scanLine_ne_outside_iff markers _ line).mp hopen with hdelimiter | ⟨-, hmarked⟩
      · simp [MarkerSet.isMarked, hdelimiter]
      · exact hmarked
    rw [hline] at hmarked
    exact Bool.false_ne_true hmarked

end Scan

/-! ## §3. Texts. -/

/-- **Adding lines to a text.**  What the lines before gave stays as it is.  If the last of them
has no marker, the lines behind give what they give on their own, further down. -/
theorem extract_append (markers : MarkerSet) (source : Path) {first second : Text}
    (h : Text.MeetAtLine first second) :
    extract markers source first <+: extract markers source (first ++ second) ∧
      ((∀ line ∈ (Text.lines first).getLast?, markers.isMarked line = false) →
        extract markers source (first ++ second) =
          extract markers source first ++
            (extract markers source second).map
              (Entry.moveDown (Text.lines first).length)) := by
  have hsplit : extract markers source (first ++ second) =
      extract markers source first ++
        scanLines markers source (scanState markers .outside (Text.lines first))
          (1 + (Text.lines first).length) (Text.lines second) := by
    unfold extract
    rw [Text.lines_append h, scanLines_append]
  refine ⟨⟨_, hsplit.symm⟩, fun hlast => ?_⟩
  rw [hsplit, scanState_eq_outside markers hlast, scanLines_add]
  rfl

/-- The first text ends with an unmarked line and a carriage return, and the second one begins
with a comment line that would belong to the block of the first. -/
theorem extract_append_carriageReturn :
    Text.MeetAtLine "### Port\n## Number.\nport: 80\r".toList "# Note.\n### Host\n".toList ∧
    (∀ line ∈ (Text.lines "### Port\n## Number.\nport: 80\r".toList).getLast?,
      MarkerSet.default.isMarked line = false) ∧
    extract .default (.ofText "app.yaml".toList)
        ("### Port\n## Number.\nport: 80\r".toList ++ "# Note.\n### Host\n".toList) =
      extract .default (.ofText "app.yaml".toList) "### Port\n## Number.\nport: 80\r".toList ++
        (extract .default (.ofText "app.yaml".toList) "# Note.\n### Host\n".toList).map
          (Entry.moveDown (Text.lines "### Port\n## Number.\nport: 80\r".toList).length) := by
  have hmeet : Text.MeetAtLine "### Port\n## Number.\nport: 80\r".toList
      "# Note.\n### Host\n".toList := by
    decide
  have hlast : ∀ line ∈ (Text.lines "### Port\n## Number.\nport: 80\r".toList).getLast?,
      MarkerSet.default.isMarked line = false := by
    decide +kernel
  exact ⟨hmeet, hlast, (extract_append .default _ hmeet).2 hlast⟩

end YamlDocs
