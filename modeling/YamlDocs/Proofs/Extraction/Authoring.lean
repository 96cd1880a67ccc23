/-
  YamlDocs.Proofs.Extraction.Authoring
  ────────────────────────────────
  **WRITING DOCUMENTATION AND EXTRACTING IT.**

  An author writes blocks: a title, remarks on the block or on a single key,
  and the YAML that they are about.  The extraction gives back the titles and
  the remarks, each with its text as it was and the number of its line
  (`authored_notes_are_extracted`), if a parameter marker has the two
  characters that a parameter line loses and each line, as it is written, is
  one line and begins with no marker that is tested before its own.  With a
  line break in a marker no line begins with it
  (`line_break_in_marker_begins_no_line`).

  `QuotedFrom` says of some lines that the scan gives them back from a given
  state on; it is shown line by line and put together with `QuotedFrom.append`.
-/
import YamlDocs.Proofs.Extraction.LookBack
import YamlDocs.Proofs.Text.Lines
import Mathlib.Data.List.Forall2

namespace YamlDocs

/-! ## §1. What an author writes. -/

/-- A line of documentation below a title. -/
inductive Remark where
  /-- About the block. -/
  | comment (text : Text)
  /-- About a single key. -/
  | parameter (text : Text)

/-- A documentation block and the YAML behind it. -/
structure AuthoredBlock where
  title : Text
  remarks : List Remark
  yaml : List Text

/-- A line as its author means it. -/
inductive AuthoredLine where
  | title (text : Text)
  | remark (remark : Remark)
  | yaml (text : Text)

namespace AuthoredLine

/-- What the line says. -/
def text : AuthoredLine → Text
  | title text => text
  | remark (.comment text) => text
  | remark (.parameter text) => text
  | yaml text => text

/-- How the line is written, with a space behind a delimiter and a comment marker. -/
def written (markers : MarkerSet) : AuthoredLine → Text
  | title text => markers.docDelimiter ++ ' ' :: text
  | remark (.comment text) => markers.comment ++ ' ' :: text
  | remark (.parameter text) => markers.docParameter ++ text
  | yaml text => text

/-- Whether the line, as it is written, begins with no marker that is tested before its own, and
YAML with none at all. -/
def isRecognizable (markers : MarkerSet) (line : AuthoredLine) : Bool :=
  match line with
  | title _ => true
  | remark (.comment _) =>
      !markers.docDelimiter.isPrefixOf (line.written markers) &&
        !markers.docParameter.isPrefixOf (line.written markers)
  | remark (.parameter _) => !markers.docDelimiter.isPrefixOf (line.written markers)
  | yaml _ => !markers.isMarked (line.written markers)

/-- Whether the line is documentation. -/
def isNote : AuthoredLine → Bool
  | title _ => true
  | remark _ => true
  | yaml _ => false

/-- The kinds of entries that the line may become. -/
def kinds : AuthoredLine → List LineKind
  | title _ => [.blockStart]
  | remark (.comment _) => [.comment]
  | remark (.parameter _) => [.parameter, .parameterContinuation]
  | yaml _ => []

end AuthoredLine

/-- The lines of a block. -/
def AuthoredBlock.lines (block : AuthoredBlock) : List AuthoredLine :=
  .title block.title :: (block.remarks.map .remark ++ block.yaml.map .yaml)

/-- The lines of blocks that follow each other. -/
def authoredLines (blocks : List AuthoredBlock) : List AuthoredLine :=
  blocks.flatMap AuthoredBlock.lines

/-- The file that an author writes, with a line feed behind every line. -/
def authoredText (markers : MarkerSet) (blocks : List AuthoredBlock) : Text :=
  Text.unlines ((authoredLines blocks).map (AuthoredLine.written markers))

/-! ## §2. What is to come out. -/

/-- The documentation lines with their numbers, the first line having the given one. -/
def authoredNotes (number : Nat) (lines : List AuthoredLine) : List (AuthoredLine × Nat) :=
  (lines.zipIdx number).filter fun note => note.1.isNote

/-- The entries that hold text of an author. -/
def Buffer.notes (buffer : Buffer) : List Entry :=
  buffer.filter fun entry => entry.kind ≠ .separator

/-- **The entry is the authored line**: it has the text, unchanged, and the number of the line. -/
structure Entry.Quotes (path : Path) (note : AuthoredLine × Nat) (entry : Entry) : Prop where
  text_eq : entry.text = note.1.text
  source_eq : entry.source = path
  line_eq : entry.line = note.2
  kind_mem : entry.kind ∈ note.1.kinds

/-- The scan from the given state and line number gives back the documentation among the lines. -/
def QuotedFrom (markers : MarkerSet) (path : Path) (state : ScanState) (number : Nat)
    (lines : List AuthoredLine) : Prop :=
  List.Forall₂ (Entry.Quotes path) (authoredNotes number lines)
    (Buffer.notes
      (scanLines markers path state number (lines.map (AuthoredLine.written markers))))

/-! ## §3. One line. -/

section Line

variable {markers : MarkerSet} {state : ScanState}

/-- What the scan makes of a title. -/
theorem scanLine_title (state : ScanState) (text : Text) :
    scanLine markers state (AuthoredLine.written markers (.title text)) =
      ([⟨.blockStart, text⟩], state.enterBlock) := by
  have hdelimiter : markers.docDelimiter.isPrefixOf? (markers.docDelimiter ++ ' ' :: text) =
      some (' ' :: text) :=
    List.isPrefixOf?_eq_some_iff_append_eq.mpr rfl
  unfold scanLine AuthoredLine.written
  rw [hdelimiter]
  rfl

/-- What the scan makes of a comment in a block. -/
theorem scanLine_comment (hopen : state ≠ .outside) {text : Text}
    (h : AuthoredLine.isRecognizable markers (.remark (.comment text)) = true) :
    scanLine markers state (AuthoredLine.written markers (.remark (.comment text))) =
      ([.separator, ⟨.comment, text⟩], state) := by
  have hcomment : markers.comment.isPrefixOf? (markers.comment ++ ' ' :: text) =
      some (' ' :: text) :=
    List.isPrefixOf?_eq_some_iff_append_eq.mpr rfl
  simp only [AuthoredLine.isRecognizable, Bool.and_eq_true, Bool.not_eq_true'] at h
  unfold scanLine
  rw [isPrefixOf?_eq_ite, h.1, h.2]
  simp only [hopen, if_false, Bool.false_eq_true]
  unfold AuthoredLine.written
  rw [hcomment]
  rfl

/-- What the scan makes of a parameter line in a block. -/
theorem scanLine_parameter (hwidth : markers.docParameter.length = parameterWidth)
    (hopen : state ≠ .outside) {text : Text}
    (h : AuthoredLine.isRecognizable markers (.remark (.parameter text)) = true) :
    scanLine markers state (AuthoredLine.written markers (.remark (.parameter text))) =
      ([.separator, ⟨state.parameterKind, text⟩], .inParameter) := by
  have hparameter : markers.docParameter.isPrefixOf (markers.docParameter ++ text) = true :=
    List.isPrefixOf_iff_prefix.mpr (List.prefix_append _ _)
  simp only [AuthoredLine.isRecognizable, Bool.not_eq_true'] at h
  unfold scanLine
  rw [isPrefixOf?_eq_ite, h]
  simp only [hopen, if_false, Bool.false_eq_true]
  unfold AuthoredLine.written
  rw [if_pos hparameter, List.drop_left' hwidth]

/-- What the scan makes of YAML, wherever it stands. -/
theorem scanLine_yaml (state : ScanState) {text : Text}
    (h : AuthoredLine.isRecognizable markers (.yaml text) = true) :
    scanLine markers state (AuthoredLine.written markers (.yaml text)) =
      ([.separator], .outside) := by
  simp only [AuthoredLine.isRecognizable, AuthoredLine.written, MarkerSet.isMarked,
    Bool.not_eq_true', Bool.or_eq_false_iff] at h
  obtain ⟨⟨hdelimiter, hparameter⟩, hcomment⟩ := h
  unfold scanLine AuthoredLine.written
  rw [isPrefixOf?_eq_ite, isPrefixOf?_eq_ite, hdelimiter, hparameter, hcomment]
  simp

end Line

/-! ## §4. Lines one after the other. -/

namespace QuotedFrom

variable {markers : MarkerSet} {path : Path} {state : ScanState} {number : Nat}

theorem nil : QuotedFrom markers path state number [] := List.Forall₂.nil

/-- **Lines that are given back go on behind lines that are given back.** -/
theorem append {front back : List AuthoredLine}
    (hfront : QuotedFrom markers path state number front)
    (hback : QuotedFrom markers path
      (scanState markers state (front.map (AuthoredLine.written markers)))
      (number + front.length) back) :
    QuotedFrom markers path state number (front ++ back) := by
  unfold QuotedFrom authoredNotes Buffer.notes at *
  rw [List.zipIdx_append, List.filter_append, List.map_append, scanLines_append,
    List.filter_append, List.length_map]
  exact List.rel_append hfront hback

/-- One line in front. -/
theorem cons {line : AuthoredLine} {rest : List AuthoredLine} {pieces : List Piece}
    {next : ScanState} (hline : scanLine markers state (line.written markers) = (pieces, next))
    (hquoted : List.Forall₂ (Entry.Quotes path) (authoredNotes number [line])
      (Buffer.notes (pieces.map (Piece.entry path number))))
    (hrest : QuotedFrom markers path next (number + 1) rest) :
    QuotedFrom markers path state number (line :: rest) := by
  have hfront : QuotedFrom markers path state number [line] := by
    unfold QuotedFrom
    rw [List.map_singleton, scanLines_cons, hline, scanLines, List.append_nil]
    exact hquoted
  have hnext : scanState markers state ([line].map (AuthoredLine.written markers)) = next :=
    congrArg Prod.snd hline
  exact hfront.append (hnext ▸ hrest)

/-- **A title** opens a block. -/
theorem title {text : Text} {rest : List AuthoredLine}
    (hrest : QuotedFrom markers path state.enterBlock (number + 1) rest) :
    QuotedFrom markers path state number (.title text :: rest) :=
  cons (scanLine_title state text)
    (.cons ⟨rfl, rfl, rfl, List.mem_singleton_self _⟩ .nil) hrest

/-- **A remark** in an open block leaves it open. -/
theorem remark (hwidth : markers.docParameter.length = parameterWidth) (hopen : state ≠ .outside)
    {remark : Remark} {rest : List AuthoredLine}
    (h : AuthoredLine.isRecognizable markers (.remark remark) = true)
    (hrest : ∀ next : ScanState, next ≠ .outside →
      QuotedFrom markers path next (number + 1) rest) :
    QuotedFrom markers path state number (.remark remark :: rest) := by
  cases remark with
  | comment text =>
      exact cons (scanLine_comment hopen h)
        (.cons ⟨rfl, rfl, rfl, List.mem_singleton_self _⟩ .nil) (hrest state hopen)
  | parameter text =>
      refine cons (scanLine_parameter hwidth hopen h) ?_ (hrest .inParameter (by decide))
      -- Whether an earlier line opened the parameter part decides between the two kinds.
      cases state with
      | outside => exact absurd rfl hopen
      | inBlock => exact .cons ⟨rfl, rfl, rfl, List.mem_cons_self⟩ .nil
      | inParameter =>
          exact .cons ⟨rfl, rfl, rfl, List.mem_cons_of_mem _ (List.mem_singleton_self _)⟩ .nil

/-- **YAML** gives nothing. -/
theorem yaml {text : Text} {rest : List AuthoredLine}
    (h : AuthoredLine.isRecognizable markers (.yaml text) = true)
    (hrest : QuotedFrom markers path .outside (number + 1) rest) :
    QuotedFrom markers path state number (.yaml text :: rest) :=
  cons (scanLine_yaml state h) .nil hrest

/-! ## §5. Blocks. -/

/-- The YAML of a block, wherever the scan is. -/
theorem map_yaml {texts : List Text}
    (h : ∀ text ∈ texts, AuthoredLine.isRecognizable markers (.yaml text) = true) :
    QuotedFrom markers path state number (texts.map .yaml) := by
  induction texts generalizing state number with
  | nil => exact nil
  | cons text rest ih =>
      obtain ⟨htext, hrest⟩ := List.forall_mem_cons.mp h
      exact yaml htext (ih hrest)

/-- The remarks of a block, behind its title. -/
theorem map_remark (hwidth : markers.docParameter.length = parameterWidth)
    (hopen : state ≠ .outside) {remarks : List Remark} {back : List AuthoredLine}
    (h : ∀ remark ∈ remarks, AuthoredLine.isRecognizable markers (.remark remark) = true)
    (hback : ∀ (next : ScanState) (number : Nat), QuotedFrom markers path next number back) :
    QuotedFrom markers path state number (remarks.map .remark ++ back) := by
  induction remarks generalizing state number with
  | nil => exact hback state number
  | cons first rest ih =>
      obtain ⟨hfirst, hrest⟩ := List.forall_mem_cons.mp h
      exact remark hwidth hopen hfirst fun next hnext => ih hnext hrest

/-- **A block is given back from every state.** -/
theorem block (hwidth : markers.docParameter.length = parameterWidth) (block : AuthoredBlock)
    (h : ∀ line ∈ block.lines, line.isRecognizable markers = true) :
    QuotedFrom markers path state number block.lines := by
  unfold AuthoredBlock.lines at h ⊢
  simp only [List.forall_mem_cons, List.forall_mem_append, List.forall_mem_map] at h
  obtain ⟨-, hremarks, hyaml⟩ := h
  have hopen : state.enterBlock ≠ .outside := by
    cases state <;> decide
  exact title (map_remark hwidth hopen hremarks fun next number => map_yaml hyaml)

/-- **So are blocks that follow each other**, whatever state the ones before leave. -/
theorem blocks (hwidth : markers.docParameter.length = parameterWidth)
    (blocks : List AuthoredBlock)
    (h : ∀ line ∈ authoredLines blocks, line.isRecognizable markers = true) :
    QuotedFrom markers path state number (authoredLines blocks) := by
  induction blocks generalizing state number with
  | nil => exact nil
  | cons first rest ih =>
      unfold authoredLines at h ih ⊢
      rw [List.flatMap_cons] at h ⊢
      obtain ⟨hfirst, hrest⟩ := List.forall_mem_append.mp h
      exact append (block hwidth first hfirst) (ih hrest)

end QuotedFrom

/-! ## §6. The file. -/

/-- **What an author writes is extracted as it is.**  The parameter marker has two characters,
every line as it is written is one line, and none begins with a marker that is tested before its
own.  Then the entries that are no separators are the titles and remarks, in their order: texts
unchanged, numbers of their lines, kinds as they are meant. -/
theorem authored_notes_are_extracted (markers : MarkerSet) (path : Path)
    (blocks : List AuthoredBlock) (hwidth : markers.docParameter.length = 2)
    (hfree : ∀ line ∈ authoredLines blocks, Text.BreakFree (line.written markers))
    (hreadable : ∀ line ∈ authoredLines blocks, line.isRecognizable markers = true) :
    List.Forall₂ (Entry.Quotes path) (authoredNotes 1 (authoredLines blocks))
      (Buffer.notes (extract markers path (authoredText markers blocks))) := by
  unfold extract authoredText
  rw [Text.lines_unlines (List.forall_mem_map.mpr hfree)]
  exact QuotedFrom.blocks hwidth blocks hreadable

/-- Two blocks without YAML between them, texts that are empty or begin or end with spaces, and a
comment that looks like a parameter behind its marker. -/
def awkwardBlocks : List AuthoredBlock :=
  [⟨"  Ports ".toList, [.parameter " the port".toList, .comment [], .comment "## 80".toList], []⟩,
    ⟨[], [.parameter [], .comment " by name".toList],
      ["host: a # not documented".toList, [], " # nor this".toList]⟩]

/-- The awkward blocks are extracted as they are. -/
theorem authored_notes_are_extracted_awkward :
    MarkerSet.default.docParameter.length = 2 ∧
    (∀ line ∈ authoredLines awkwardBlocks, Text.BreakFree (line.written .default)) ∧
    (∀ line ∈ authoredLines awkwardBlocks, line.isRecognizable .default = true) ∧
    List.Forall₂ (Entry.Quotes (.ofText "app.yaml".toList))
      (authoredNotes 1 (authoredLines awkwardBlocks))
      (Buffer.notes (extract .default (.ofText "app.yaml".toList)
        (authoredText .default awkwardBlocks))) := by
  have hwidth : MarkerSet.default.docParameter.length = 2 := rfl
  have hfree : ∀ line ∈ authoredLines awkwardBlocks, Text.BreakFree (line.written .default) := by
    decide +kernel
  have hreadable : ∀ line ∈ authoredLines awkwardBlocks, line.isRecognizable .default = true := by
    decide +kernel
  exact ⟨hwidth, hfree, hreadable,
    authored_notes_are_extracted .default _ awkwardBlocks hwidth hfree hreadable⟩

/-- The default markers with a line feed behind the delimiter. -/
def twoLineMarkers : MarkerSet :=
  { MarkerSet.default with
    docDelimiter := ['#', '#', '#', '\n']
    docDelimiter_ne_nil := List.cons_ne_nil _ _ }

/-- A title alone. -/
def loneTitle : List AuthoredBlock := [⟨"Title".toList, [], []⟩]

/-- **With a line break in its marker a title is lost**, although its text has none: the written
title is two lines, and neither begins with the marker. -/
theorem line_break_in_marker_begins_no_line :
    twoLineMarkers.docParameter.length = 2 ∧
    (∀ line ∈ authoredLines loneTitle, Text.BreakFree line.text) ∧
    (∀ line ∈ authoredLines loneTitle, line.isRecognizable twoLineMarkers = true) ∧
    ¬ List.Forall₂ (Entry.Quotes (.ofText "app.yaml".toList))
      (authoredNotes 1 (authoredLines loneTitle))
      (Buffer.notes (extract twoLineMarkers (.ofText "app.yaml".toList)
        (authoredText twoLineMarkers loneTitle))) := by
  have hnothing : Buffer.notes (extract twoLineMarkers (.ofText "app.yaml".toList)
      (authoredText twoLineMarkers loneTitle)) = [] := by
    decide +kernel
  refine ⟨rfl, by decide +kernel, by decide +kernel, fun hquoted => ?_⟩
  rw [hnothing] at hquoted
  exact List.cons_ne_nil _ _ (List.forall₂_nil_right_iff.mp hquoted)

end YamlDocs
