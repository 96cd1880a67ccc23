/-
  YamlDocs.Proofs.Command.LineEnd
  ────────────────────────────────
  **LINE ENDS DO NOT MATTER.**

  A text is read through its lines and through whether it ends its last
  line, and both are those of its universal-newline translation.  So
  extraction and expansion do not tell a text from its translation, and no
  command tells two file systems apart whose texts have the same
  translations (`lineEnds_do_not_matter`).
-/
import YamlDocs.Command.Basic
import YamlDocs.Proofs.Document.Dependency
import YamlDocs.Proofs.Text.Newline

namespace YamlDocs

/-! ## §1. Texts. -/

theorem extract_congr_translate {text other : Text}
    (h : Text.translate text = Text.translate other) (markers : MarkerSet) (source : Path) :
    extract markers source text = extract markers source other := by
  unfold extract
  rw [Text.lines_congr_translate h]

theorem Environment.expand_congr_translate {source other : Text}
    (h : Text.translate source = Text.translate other) (files : FileView) (env : Environment)
    (document : Path) :
    env.expand files document source = env.expand files document other := by
  unfold expand assemble
  rw [Text.lines_congr_translate h, Text.endsWithLineEnd_congr_translate h]

/-! ## §2. Files. -/

/-- File systems that are the same but for the line ends of their texts: at every path both refuse
to be read for the same reason or give texts with the same translation. -/
def FileView.SameButLineEnds (files files' : FileView) : Prop :=
  ∀ path, (files.readText path).map Text.translate = (files'.readText path).map Text.translate

section Files

variable {files files' : FileView}

/-- What is read in two such file systems. -/
theorem FileView.SameButLineEnds.readText_cases (h : files.SameButLineEnds files') (path : Path) :
    (∃ error, files.readText path = .error error ∧ files'.readText path = .error error) ∨
      ∃ text other, files.readText path = .ok text ∧ files'.readText path = .ok other ∧
        Text.translate text = Text.translate other := by
  have hpath := h path
  -- If only one of them is read, the translations differ in whether there is one.
  cases htext : files.readText path with
  | error error =>
      cases hother : files'.readText path with
      | error error' =>
          rw [htext, hother] at hpath
          obtain rfl : error = error' := Except.error.inj hpath
          exact Or.inl ⟨error, rfl, rfl⟩
      | ok other => rw [htext, hother] at hpath; exact nomatch hpath
  | ok text =>
      cases hother : files'.readText path with
      | error error => rw [htext, hother] at hpath; exact nomatch hpath
      | ok other =>
          rw [htext, hother] at hpath
          exact Or.inr ⟨text, other, rfl, rfl, Except.ok.inj hpath⟩

theorem load_congr_lineEnds (h : files.SameButLineEnds files') (markers : MarkerSet)
    (location : Path) : load files markers location = load files' markers location := by
  rw [load_eq_readText, load_eq_readText]
  rcases h.readText_cases location with ⟨error, herror, herror'⟩ | ⟨text, other, htext, hother, hsame⟩
  · rw [herror, herror']
  · rw [htext, hother]
    exact congrArg Except.ok (extract_congr_translate hsame markers location)

theorem Environment.expand_congr_lineEnds (h : files.SameButLineEnds files') {source other : Text}
    (hsource : Text.translate source = Text.translate other) (env : Environment)
    (document : Path) :
    env.expand files document source = env.expand files' document other := by
  rw [expand_congr_load fun path _ => load_congr_lineEnds h env.markers path]
  exact expand_congr_translate hsource files' env document

/-! ## §3. Commands. -/

theorem expandFile_congr_lineEnds (h : files.SameButLineEnds files') (settings : Settings)
    (workingDirectory : Path) (sourceDirectory : Option Path) (document : Path) :
    expandFile files settings workingDirectory sourceDirectory document =
      expandFile files' settings workingDirectory sourceDirectory document := by
  unfold expandFile
  rcases h.readText_cases document with ⟨error, herror, herror'⟩ | ⟨text, other, htext, hother, hsame⟩
  · rw [herror, herror']
  · rw [htext, hother]
    simp only [Environment.expand_congr_lineEnds h hsame]

/-- **No command tells line ends apart.** -/
theorem Command.effect_congr_lineEnds (h : files.SameButLineEnds files') (workingDirectory : Path)
    (settings : Settings) (command : Command) :
    command.effect files workingDirectory settings =
      command.effect files' workingDirectory settings := by
  cases command with
  | extract path format =>
      simp only [effect, extractFile, load_congr_lineEnds h]
  | expand document sourceDirectory output =>
      simp only [effect, expandFile_congr_lineEnds h]
  | dependencies document sourceDirectory =>
      simp only [effect, expandFile_congr_lineEnds h]

end Files

/-- **Line ends do not matter.** The lines of a text are those of its translation, cut at every
line break. A text and its translation have the same documentation, and as documents they give the
same text or the same error and leave the same environment. In file systems that are the same but
for the line ends of their texts, everything loads alike, documents with the same translation
expand alike, and every command does the same. -/
theorem lineEnds_do_not_matter :
    (∀ text, Text.lines text = Text.cutAtBreaks (Text.translate text)) ∧
    (∀ (markers : MarkerSet) (source : Path) (text : Text),
      extract markers source text = extract markers source (Text.translate text)) ∧
    (∀ (files : FileView) (env : Environment) (document : Path) (source : Text),
      env.expand files document source = env.expand files document (Text.translate source)) ∧
    ∀ files files' : FileView, files.SameButLineEnds files' →
      (∀ (markers : MarkerSet) (location : Path),
        load files markers location = load files' markers location) ∧
      (∀ (env : Environment) (document : Path) (source other : Text),
        Text.translate source = Text.translate other →
        env.expand files document source = env.expand files' document other) ∧
      ∀ (workingDirectory : Path) (settings : Settings) (command : Command),
        command.effect files workingDirectory settings =
          command.effect files' workingDirectory settings := by
  refine ⟨Text.lines_eq_cutAtBreaks, ?_, ?_, ?_⟩
  -- A text and its translation have the same translation.
  · intro markers source text
    exact extract_congr_translate (Text.translate_translate text).symm markers source
  · intro files env document source
    exact Environment.expand_congr_translate (Text.translate_translate source).symm files env
      document
  · intro files files' h
    refine ⟨load_congr_lineEnds h, ?_, Command.effect_congr_lineEnds h⟩
    intro env document source other hsource
    exact Environment.expand_congr_lineEnds h hsource env document

/-! ## §4. Two file systems. -/

/-- A view whose only file holds the given text. -/
def fileWith (content : Text) : FileView := fun path =>
  if path = .ofText "/docs/a.yaml".toList then .ok (Utf8.encode content) else .error .missing

/-- A document and a YAML file, each with three kinds of line end, and the same with line feeds. -/
theorem lineEnds_do_not_matter_docs :
    Text.translate "T\r\r\n.. autoyaml:: a.yaml\r".toList =
      Text.translate "T\n\n.. autoyaml:: a.yaml\n".toList ∧
    (fileWith "### A\r# b\r\n".toList).SameButLineEnds (fileWith "### A\n# b\n".toList) ∧
    docsEnvironment.expand (fileWith "### A\r# b\r\n".toList) (.ofText "index".toList)
        "T\r\r\n.. autoyaml:: a.yaml\r".toList =
      docsEnvironment.expand (fileWith "### A\n# b\n".toList) (.ofText "index".toList)
        "T\n\n.. autoyaml:: a.yaml\n".toList ∧
    (docsEnvironment.expand (fileWith "### A\r# b\r\n".toList) (.ofText "index".toList)
        "T\r\r\n.. autoyaml:: a.yaml\r".toList).2 = .ok "T\n\nA\n\nb\n".toList := by
  obtain ⟨-, -, -, hfiles⟩ := lineEnds_do_not_matter
  have hsource : Text.translate "T\r\r\n.. autoyaml:: a.yaml\r".toList =
      Text.translate "T\n\n.. autoyaml:: a.yaml\n".toList := by decide
  have hsame : (fileWith "### A\r# b\r\n".toList).SameButLineEnds
      (fileWith "### A\n# b\n".toList) := by
    intro path
    unfold FileView.readText fileWith
    by_cases hpath : path = .ofText "/docs/a.yaml".toList
    · rw [if_pos hpath, if_pos hpath]
      decide +kernel
    · rw [if_neg hpath, if_neg hpath]
  obtain ⟨-, hexpand, -⟩ := hfiles _ _ hsame
  refine ⟨hsource, hsame, hexpand _ _ _ _ hsource, ?_⟩
  rw [hexpand _ _ _ _ hsource]
  decide +kernel

end YamlDocs
