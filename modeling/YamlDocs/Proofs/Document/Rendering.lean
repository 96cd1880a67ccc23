/-
  YamlDocs.Proofs.Document.Rendering
  ────────────────────────────────
  **A DIRECTIVE RENDERS WHAT THE RST FORMAT WRITES.**

  An expansion collects lines and puts line feeds between them; the `rst`
  format writes a line feed behind every line.  `RstPiece` is what a line of
  a document becomes when line feeds are written behind lines.  For documents
  that end their last line the two agree, piece by piece
  (`expand_renders_rst`), with one exception: if every piece is empty there is
  no line to join, and the line feed of the document stays alone
  (`empty_documentation_leaves_feed`).
-/
import YamlDocs.Command.Basic
import YamlDocs.Proofs.Document.Expansion
import YamlDocs.Proofs.Document.Failure
import YamlDocs.Proofs.Document.Markup
import YamlDocs.Proofs.Extraction.Rst
import YamlDocs.Proofs.Text.Trim

namespace YamlDocs

/-! ## §1. Indented text. -/

/-- The text with an indent in front of every line that is not empty. -/
def Text.indentLines (indent text : Text) : Text :=
  unlines ((lines text).map fun line => if line = [] then [] else indent ++ line)

/-- **A directive renders the rst format behind its indent.** -/
theorem unlines_render {directive : Directive} {buffer : Buffer}
    (h : ∀ entry ∈ buffer, Text.BreakFree entry.text) :
    Text.unlines (directive.render buffer) =
      Text.indentLines directive.indent (Format.toRst buffer) := by
  unfold Text.indentLines
  rw [lines_toRst h]
  unfold Directive.render Buffer.texts
  rw [List.map_map]
  rfl

theorem indentLines_nil {buffer : Buffer} (h : ∀ entry ∈ buffer, Text.BreakFree entry.text) :
    Text.indentLines [] (Format.toRst buffer) = Format.toRst buffer := by
  have hsame : (fun line : Text => if line = [] then [] else [] ++ line) = id := by
    funext line
    split
    case isTrue hempty => exact hempty.symm
    case isFalse => rfl
  unfold Text.indentLines
  rw [hsame, List.map_id, lines_toRst h, Format.toRst_eq_unlines]

/-! ## §2. Pieces. -/

/-- What the line at a position of a document with the given lines becomes, line feeds included. -/
inductive RstPiece (files : FileView) (env : Environment) (lines : List Text) :
    Text × Nat → Text → Prop
  /-- A line that is literal or no directive line stays. -/
  | passing {line : Text} {i : Nat} (h : IsLiteral lines i ∨ Directive.match? line = none) :
      RstPiece files env lines (line, i) (line ++ ['\n'])
  /-- An active directive gives way to the rst format of its file, behind its indent. -/
  | directive {line indent arguments argument : Text} {i : Nat} {buffer : Buffer}
      (hliteral : ¬ IsLiteral lines i) (hmatch : Directive.match? line = some (indent, arguments))
      (hwords : Text.words arguments = [argument])
      (hload : load files env.markers (env.resolve argument) = .ok buffer) :
      RstPiece files env lines (line, i) (Text.indentLines indent (Format.toRst buffer))

theorem breakFree_of_load {files : FileView} {markers : MarkerSet} {location : Path}
    {buffer : Buffer} (h : load files markers location = .ok buffer) :
    ∀ entry ∈ buffer, Text.BreakFree entry.text := by
  obtain ⟨yaml, -, rfl⟩ := load_eq_ok_iff.mp h
  exact fun entry => breakFree_of_mem_extract

section Pieces

variable {files : FileView} {env : Environment} {document : Path} {lines : List Text}
variable {placed : Text × Nat}

/-- The lines that replace a line, with line feeds behind them, are its piece. -/
theorem rstPiece_of_replacement {group : List Text}
    (h : Replacement files env document lines placed group) :
    RstPiece files env lines placed (Text.unlines group) := by
  cases h with
  | literal hliteral =>
      rw [Text.unlines_singleton]
      exact .passing (Or.inl hliteral)
  | ordinary _ hparse =>
      rw [Text.unlines_singleton]
      exact .passing (Or.inr (Directive.parse_eq_ok_none_iff.mp hparse))
  | @directive line i directive buffer hliteral hparse hload =>
      obtain ⟨arguments, hmatch, hwords, -⟩ := Directive.parse_eq_ok_some_iff.mp hparse
      show RstPiece files env lines _ (Text.unlines (directive.render buffer))
      rw [unlines_render (breakFree_of_load hload)]
      exact .directive hliteral hmatch hwords hload

/-- Every piece is made of lines that replace its line. -/
theorem exists_replacement_of_rstPiece {piece : Text} (h : RstPiece files env lines placed piece) :
    ∃ group, Replacement files env document lines placed group ∧ Text.unlines group = piece := by
  cases h with
  | @passing line i h =>
      refine ⟨[line], ?_, Text.unlines_singleton line⟩
      by_cases hliteral : IsLiteral lines i
      · exact .literal hliteral
      · rcases h with h | h
        · exact absurd h hliteral
        · exact .ordinary hliteral (Directive.parse_eq_ok_none_iff.mpr h)
  | @directive line indent arguments argument i buffer hliteral hmatch hwords hload =>
      have hparse : Directive.parse document (i + 1) line =
          .ok (some { indent, argument, line := i + 1 }) :=
        Directive.parse_eq_ok_some_iff.mpr ⟨arguments, hmatch, hwords, rfl⟩
      exact ⟨_, .directive hliteral hparse hload, unlines_render (breakFree_of_load hload)⟩

/-- The pieces of a document are its replacements with line feeds behind all lines. -/
theorem forall₂_rstPiece_iff {placed : List (Text × Nat)} {pieces : List Text} :
    List.Forall₂ (RstPiece files env lines) placed pieces ↔
      ∃ groups, List.Forall₂ (Replacement files env document lines) placed groups ∧
        pieces = groups.map Text.unlines := by
  constructor
  · intro h
    induction h with
    | nil => exact ⟨[], .nil, rfl⟩
    | cons hpiece _ ih =>
        obtain ⟨group, hgroup, rfl⟩ := exists_replacement_of_rstPiece hpiece
        obtain ⟨groups, hgroups, rfl⟩ := ih
        exact ⟨group :: groups, .cons hgroup hgroups, rfl⟩
  · intro h
    obtain ⟨groups, hgroups, rfl⟩ := h
    rw [List.forall₂_map_right_iff]
    exact hgroups.imp fun _ _ => rstPiece_of_replacement

end Pieces

/-! ## §3. Documents. -/

/-- A document that is empty or ends its last line. -/
def IsTerminated (source : Text) : Prop :=
  source = [] ∨ source.getLast? = some '\n' ∨ source.getLast? = some '\r'

/-- Pieces as the text of a document: those of a document that is not empty leave a line feed if
they are all empty. -/
def concatenate (source : Text) (pieces : List Text) : Text :=
  if source ≠ [] ∧ pieces.flatten = [] then ['\n'] else pieces.flatten

theorem assemble_of_endsWithLineEnd {source : Text} (h : Text.endsWithLineEnd source = true)
    (lines : List Text) :
    Environment.assemble source lines =
      if Text.unlines lines = [] then ['\n'] else Text.unlines lines := by
  unfold Environment.assemble
  rw [h, if_pos rfl]
  split
  case isTrue hnone =>
    rw [Text.unlines_eq_nil_iff.mp hnone]
    rfl
  case isFalse hsome => exact Text.join_append_feed fun h => hsome (Text.unlines_eq_nil_iff.mpr h)

section Documents

variable {files : FileView} {env : Environment} {document : Path} {source : Text}

/-- In a document that ends its last line, what is assembled is the pieces one after the other. -/
theorem assemble_of_isTerminated (hend : IsTerminated source) {groups : List (List Text)}
    (hgroups : List.Forall₂ (Replacement files env document (Text.lines source))
      (Text.lines source).zipIdx groups) :
    Environment.assemble source groups.flatten = concatenate source (groups.map Text.unlines) := by
  unfold concatenate
  rw [← Text.unlines_flatten]
  rcases hend with rfl | hend
  · -- The empty document has no line, hence no group.
    cases hgroups
    rfl
  · have hne : source ≠ [] := by
      rintro rfl
      simp at hend
    rw [assemble_of_endsWithLineEnd ((endsWithLineEnd_iff source).mpr hend)]
    simp only [hne, ne_eq, not_false_eq_true, true_and]

/-- **A document that ends its last line expands to its pieces.** -/
theorem expand_eq_ok_iff_pieces (hend : IsTerminated source) {text : Text} :
    (env.expand files document source).2 = .ok text ↔
      ∃ pieces, List.Forall₂ (RstPiece files env (Text.lines source)) (Text.lines source).zipIdx
          pieces ∧ text = concatenate source pieces := by
  rw [Environment.expand_eq_ok_iff_gather]
  simp only [forall₂_outcomes_iff, @forall₂_rstPiece_iff files env document]
  constructor
  · intro h
    obtain ⟨groups, hgroups, rfl⟩ := h
    exact ⟨_, ⟨groups, hgroups, rfl⟩, assemble_of_isTerminated hend hgroups⟩
  · intro h
    obtain ⟨pieces, ⟨groups, hgroups, rfl⟩, rfl⟩ := h
    exact ⟨groups, hgroups, (assemble_of_isTerminated hend hgroups).symm⟩

end Documents

/-! ## §4. A directive alone. -/

/-- A directive without indent that names the given file. -/
def directiveLine (file : Text) : Text := ".. autoyaml:: ".toList ++ file

theorem breakFree_directiveLine {file : Text} (h : Text.BreakFree file) :
    Text.BreakFree (directiveLine file) := by
  have hopening : Text.BreakFree ".. autoyaml:: ".toList := by decide
  exact List.forall_mem_append.mpr ⟨hopening, h⟩

theorem match?_directiveLine {file : Text} (h : Text.BreakFree file) :
    Directive.match? (directiveLine file) = some ([], ' ' :: file) := by
  refine Directive.match?_eq_some_iff.mpr ⟨[' '], ?_, ?_, List.cons_ne_nil _ _, ?_, rfl⟩
  · exact fun c hc => nomatch hc
  · intro c hc
    rw [List.mem_singleton.mp hc]
    rfl
  · intro hc
    rcases List.mem_cons.mp hc with hc | hc
    · exact absurd hc (by decide)
    · exact nomatch h _ hc

/-- A document of one line. -/
def oneLine (line : Text) : Text := line ++ ['\n']

theorem oneLine_ne_nil (line : Text) : oneLine line ≠ [] :=
  List.append_ne_nil_of_right_ne_nil line (List.cons_ne_nil _ _)

theorem isTerminated_oneLine (line : Text) : IsTerminated (oneLine line) :=
  Or.inr (Or.inl List.getLast?_concat)

/-- **A directive alone expands to the rst format of its file**, or to a line feed if the file is
empty. -/
theorem expand_directiveLine {files : FileView} {env : Environment} {document : Path}
    {file yaml : Text} (hword : Text.IsWord file) (hfree : Text.BreakFree file)
    (hyaml : files.readText (env.resolve file) = .ok yaml) :
    (env.expand files document (oneLine (directiveLine file))).2 =
      .ok (if yaml = [] then ['\n']
        else Format.toRst (extract env.markers (env.resolve file) yaml)) := by
  have hload : load files env.markers (env.resolve file) =
      .ok (extract env.markers (env.resolve file) yaml) :=
    load_eq_ok_iff.mpr ⟨yaml, hyaml, rfl⟩
  have hlines : Text.lines (oneLine (directiveLine file)) = [directiveLine file] :=
    Text.lines_append_feed (breakFree_directiveLine hfree) []
  have hwords : Text.words (' ' :: file) = [file] := by
    rw [Text.words_cons_of_isBlank (by decide), Text.words_of_isWord hword]
  have hpiece : RstPiece files env [directiveLine file] (directiveLine file, 0)
      (Text.indentLines [] (Format.toRst (extract env.markers (env.resolve file) yaml))) :=
    .directive (not_isLiteral_zero _) (match?_directiveLine hfree) hwords hload
  rw [indentLines_nil (breakFree_of_load hload)] at hpiece
  refine (expand_eq_ok_iff_pieces (isTerminated_oneLine _)).mpr
    ⟨[Format.toRst (extract env.markers (env.resolve file) yaml)], ?_, ?_⟩
  · rw [hlines]
    exact .cons hpiece .nil
  · unfold concatenate
    simp only [oneLine_ne_nil, ne_eq, not_false_eq_true, true_and, List.flatten_singleton,
      toRst_extract_eq_nil_iff]

/-- **A directive renders what the rst format writes.** A document that is empty or ends in a line
feed or a carriage return expands to its pieces one after the other, except that a document that is
not empty keeps a line feed when all its pieces are empty. In particular, a directive line alone
expands to what extracting its file writes, except for an empty file. -/
theorem expand_renders_rst (files : FileView) (env : Environment) (document : Path) :
    (∀ source text : Text,
      (source = [] ∨ source.getLast? = some '\n' ∨ source.getLast? = some '\r') →
        ((env.expand files document source).2 = .ok text ↔
          ∃ pieces, List.Forall₂ (RstPiece files env (Text.lines source))
              (Text.lines source).zipIdx pieces ∧
            text = if source ≠ [] ∧ pieces.flatten = [] then ['\n'] else pieces.flatten)) ∧
    ∀ (file yaml : Text) (path : Path) (settings : Settings),
      Text.IsWord file → Text.BreakFree file → settings.markers = env.markers →
      files.readText (env.resolve file) = .ok yaml → files.readText path = .ok yaml →
        ∃ buffer, load files env.markers (env.resolve file) = .ok buffer ∧
          (env.expand files document (oneLine (directiveLine file))).2 =
            .ok (if yaml = [] then ['\n'] else Format.toRst buffer) ∧
          extractFile files settings path .rst = .ok (Format.toRst buffer) := by
  refine ⟨fun source text hend => expand_eq_ok_iff_pieces hend, ?_⟩
  intro file yaml path settings hword hfree hmarkers hyaml hpath
  refine ⟨_, load_eq_ok_iff.mpr ⟨yaml, hyaml, rfl⟩, expand_directiveLine hword hfree hyaml, ?_⟩
  unfold extractFile
  rw [hmarkers, load_eq_ok_iff.mpr ⟨yaml, hpath, rfl⟩]
  show Except.ok _ = _
  rw [toRst_extract_congr _ path (env.resolve file)]

/-! ## §5. Two files. -/

/-- A directive that names the file of `singleFile` expands to what extracting the file writes, and
this is the only piece of the document. -/
theorem expand_renders_rst_docs :
    (docsEnvironment.expand singleFile (.ofText "index".toList)
      (oneLine (directiveLine "a.yaml".toList))).2 = .ok "A\n".toList ∧
    extractFile singleFile .default (.ofText "/docs/a.yaml".toList) .rst = .ok "A\n".toList ∧
    ∃ pieces, List.Forall₂ (RstPiece singleFile docsEnvironment [directiveLine "a.yaml".toList])
        [(directiveLine "a.yaml".toList, 0)] pieces ∧ pieces.flatten = "A\n".toList := by
  have hextracted : extractFile singleFile .default (.ofText "/docs/a.yaml".toList) .rst =
      .ok "A\n".toList := by decide +kernel
  have hlines : Text.lines (oneLine (directiveLine "a.yaml".toList)) =
      [directiveLine "a.yaml".toList] := by decide
  obtain ⟨hpieces, hdirective⟩ :=
    expand_renders_rst singleFile docsEnvironment (.ofText "index".toList)
  obtain ⟨buffer, -, hexpand, hextract⟩ := hdirective "a.yaml".toList "### A".toList
    (.ofText "/docs/a.yaml".toList) .default (by decide) (by decide) rfl (by decide +kernel)
    (by decide +kernel)
  have hwritten : Format.toRst buffer = "A\n".toList :=
    Except.ok.inj (hextract.symm.trans hextracted)
  rw [if_neg (by decide), hwritten] at hexpand
  obtain ⟨pieces, hmade, hjoined⟩ := (hpieces _ _ (Or.inr (Or.inl (by decide)))).mp hexpand
  rw [hlines] at hmade
  refine ⟨hexpand, hextracted, pieces, hmade, ?_⟩
  split at hjoined
  case isTrue => exact absurd hjoined (by decide)
  case isFalse => exact hjoined.symm

/-- The file system whose only file is empty. -/
def emptyFile : FileView := fun path =>
  if path = .ofText "/docs/a.yaml".toList then .ok [] else .error .missing

/-- Extracting an empty file writes nothing, but a directive that names it leaves a line feed. -/
theorem empty_documentation_leaves_feed :
    (docsEnvironment.expand emptyFile (.ofText "index".toList)
      (oneLine (directiveLine "a.yaml".toList))).2 = .ok ['\n'] ∧
    load emptyFile docsEnvironment.markers (docsEnvironment.resolve "a.yaml".toList) = .ok [] ∧
    Format.toRst [] = [] ∧
    extractFile emptyFile .default (.ofText "/docs/a.yaml".toList) .rst = .ok [] := by
  exact ⟨by decide +kernel, by decide +kernel, rfl, by decide +kernel⟩

end YamlDocs
