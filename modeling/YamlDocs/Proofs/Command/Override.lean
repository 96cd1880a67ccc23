/-
  YamlDocs.Proofs.Command.Override
  ────────────────────────────────
  **OVERRIDES ON THE COMMAND LINE.**

      override  ::=  blanks key blanks "=" value
      key       ::=  the key of a setting
      value     ::=  any characters

  An `OverrideWord` is such a word with its parts.  A word has these parts or
  one fault (`OverrideFault`), never both (`readOverride_eq_ok_iff`,
  `readOverride_eq_error_iff`).  Overrides are read before any settings
  file: a fault among them is reported whatever the files are, and the first
  one counts.  Without a fault, the last override for a setting counts, above
  all files (`overrides_first_and_last`).
-/
import YamlDocs.Command.Consulted
import YamlDocs.Proofs.Settings.Loading
import YamlDocs.Proofs.Text.Trim

namespace YamlDocs

/-! ## §1. Words with their parts. -/

/-- The parts of an override. -/
structure OverrideWord where
  before : Text
  key : SettingKey
  behind : Text
  value : Text
  before_blank : ∀ c ∈ before, Text.isBlank c = true
  behind_blank : ∀ c ∈ behind, Text.isBlank c = true

/-- The parts, written one behind the other. -/
def OverrideWord.text (word : OverrideWord) : Text :=
  word.before ++ word.key.text ++ word.behind ++ '=' :: word.value

/-- What a word lacks to be an override: an equals sign, or the key of a setting in front of the
first one. -/
inductive OverrideFault : Text → Failure → Prop
  | malformed {word : Text} (h : '=' ∉ word) : OverrideFault word (.malformedOverride word)
  | unknownKey {before name value : Text} (hbefore : '=' ∉ before) (hname : Text.IsCore name before)
      (hkey : ∀ key : SettingKey, name ≠ key.text) :
      OverrideFault (before ++ '=' :: value) (.settings (.unknownKey name))

/-- A key has no equals sign in it and no white space at its ends. -/
theorem SettingKey.text_ends (key : SettingKey) :
    '=' ∉ key.text ∧ (∀ c ∈ key.text.head?, Text.isBlank c = false) ∧
      ∀ c ∈ key.text.getLast?, Text.isBlank c = false := by
  have hends : '=' ∉ key.text ∧ key.text.head?.all (fun c => !Text.isBlank c) = true ∧
      key.text.getLast?.all (fun c => !Text.isBlank c) = true := by
    rcases key with _ | _ | _ | _ <;> decide
  simpa [Option.all_eq_true] using hends

theorem equals_notMem_of_blank {blanks : Text} (h : ∀ c ∈ blanks, Text.isBlank c = true) :
    '=' ∉ blanks := by
  intro hmem
  have hblank : Text.isBlank '=' = true := h '=' hmem
  exact absurd hblank (by decide)

/-- **A word is read as its parts.** -/
theorem readOverride_text (word : OverrideWord) :
    readOverride word.text = .ok (word.key, .text word.value) := by
  obtain ⟨hequals, hfirst, hlast⟩ := word.key.text_ends
  have hfront : '=' ∉ word.before ++ word.key.text ++ word.behind := by
    simp [hequals, equals_notMem_of_blank word.before_blank,
      equals_notMem_of_blank word.behind_blank]
  have hcut : splitFirst? '=' word.text =
      some (word.before ++ word.key.text ++ word.behind, word.value) :=
    splitFirst?_eq_some_iff.mpr ⟨hfront, rfl⟩
  have hcore : Text.trim (word.before ++ word.key.text ++ word.behind) = word.key.text :=
    Text.trim_eq_iff.mpr
      ⟨⟨word.before, word.behind, word.before_blank, word.behind_blank, rfl⟩, hfirst, hlast⟩
  unfold readOverride Sources.override
  rw [hcut]
  dsimp only
  rw [hcore, SettingKey.ofText?_eq_some_iff.mpr rfl]
  rfl

/-- **A fault is reported.** -/
theorem readOverride_of_fault {word : Text} {failure : Failure} (h : OverrideFault word failure) :
    readOverride word = .error failure := by
  unfold readOverride Sources.override
  cases h with
  | malformed h => rw [splitFirst?_eq_none_iff.mpr h]
  | @unknownKey before name value hbefore hname hkey =>
      have hnone : SettingKey.ofText? name = none := by
        cases hfound : SettingKey.ofText? name with
        | none => rfl
        | some key => exact absurd (SettingKey.ofText?_eq_some_iff.mp hfound) (hkey key)
      rw [splitFirst?_eq_some_iff.mpr ⟨hbefore, rfl⟩]
      dsimp only
      rw [Text.trim_eq_iff.mpr hname, hnone]
      rfl

/-- A word is an override or has a fault. -/
theorem exists_parts_or_fault (word : Text) :
    (∃ parts : OverrideWord, parts.text = word) ∨ ∃ failure, OverrideFault word failure := by
  cases hcut : splitFirst? '=' word with
  | none => exact Or.inr ⟨_, .malformed (splitFirst?_eq_none_iff.mp hcut)⟩
  | some sides =>
      obtain ⟨front, value⟩ := sides
      obtain ⟨hfront, rfl⟩ := splitFirst?_eq_some_iff.mp hcut
      have hcore : Text.IsCore (Text.trim front) front := Text.trim_eq_iff.mp rfl
      by_cases hkey : ∃ key : SettingKey, Text.trim front = key.text
      · obtain ⟨key, hkey⟩ := hkey
        rw [hkey] at hcore
        obtain ⟨before, behind, hbefore, hbehind, hspelled⟩ := hcore.around
        exact Or.inl ⟨⟨before, key, behind, value, hbefore, hbehind⟩, by rw [hspelled]; rfl⟩
      · exact Or.inr ⟨_, .unknownKey hfront hcore fun key h => hkey ⟨key, h⟩⟩

theorem readOverride_eq_ok_iff {word : Text} {given : SettingKey × SettingValue} :
    readOverride word = .ok given ↔
      ∃ parts : OverrideWord, parts.text = word ∧ given = (parts.key, .text parts.value) := by
  constructor
  · intro h
    rcases exists_parts_or_fault word with ⟨parts, rfl⟩ | ⟨failure, hfault⟩
    · rw [readOverride_text] at h
      exact ⟨parts, rfl, (Except.ok.inj h).symm⟩
    · rw [readOverride_of_fault hfault] at h
      exact nomatch h
  · rintro ⟨parts, rfl, rfl⟩
    exact readOverride_text parts

theorem readOverride_eq_error_iff {word : Text} {failure : Failure} :
    readOverride word = .error failure ↔ OverrideFault word failure := by
  constructor
  · intro h
    rcases exists_parts_or_fault word with ⟨parts, rfl⟩ | ⟨other, hfault⟩
    · rw [readOverride_text] at h
      exact nomatch h
    · rw [readOverride_of_fault hfault] at h
      obtain rfl := Except.error.inj h
      exact hfault
  · exact readOverride_of_fault

/-- A word has a fault exactly if it is no override. -/
theorem exists_fault_iff {word : Text} :
    (∃ failure, OverrideFault word failure) ↔ ¬ ∃ parts : OverrideWord, parts.text = word := by
  constructor
  · rintro ⟨failure, hfault⟩ ⟨parts, rfl⟩
    have hread := readOverride_of_fault hfault
    rw [readOverride_text] at hread
    exact nomatch hread
  · exact (exists_parts_or_fault word).resolve_left

/-! ## §2. All words. -/

/-- The first word with a fault has this one; those in front of it are overrides. -/
def FirstFault (words : List Text) (failure : Failure) : Prop :=
  ∃ front word rest, words = front ++ word :: rest ∧
    (∀ earlier ∈ front, ∃ parts : OverrideWord, parts.text = earlier) ∧ OverrideFault word failure

/-- The sources of a settings file, if one is given, and of overrides. -/
def overrideSources (config : Option Path) (overrides : List OverrideWord) : Sources where
  files := localSettings :: (config.map fun path => ⟨path, true⟩).toList
  overrides := overrides.map fun parts => (parts.key, .text parts.value)

theorem sourcesOf_eq_error_iff {config : Option Path} {words : List Text} {failure : Failure} :
    sourcesOf config words = .error failure ↔ FirstFault words failure := by
  have hparts : ∀ word, (∃ given, readOverride word = .ok given) ↔
      ∃ parts : OverrideWord, parts.text = word := by
    intro word
    simp only [readOverride_eq_ok_iff]
    exact ⟨fun ⟨_, parts, h, _⟩ => ⟨parts, h⟩, fun ⟨parts, h⟩ => ⟨_, parts, h, rfl⟩⟩
  unfold sourcesOf FirstFault
  rw [map_eq_error_iff, mapM_eq_error_iff]
  simp only [hparts, readOverride_eq_error_iff]

theorem mapM_readOverride_text (words : List OverrideWord) :
    (words.map OverrideWord.text).mapM readOverride =
      .ok (words.map fun word => (word.key, .text word.value)) := by
  induction words with
  | nil => rfl
  | cons word rest ih =>
      rw [List.map_cons, List.mapM_cons, readOverride_text, ih]
      rfl

theorem sourcesOf_text (config : Option Path) (overrides : List OverrideWord) :
    sourcesOf config (overrides.map OverrideWord.text) = .ok (overrideSources config overrides) := by
  unfold sourcesOf
  rw [mapM_readOverride_text]
  rfl

/-- Words are overrides, or there is a first fault among them. -/
theorem exists_overrides_or_firstFault (words : List Text) :
    (∃ overrides : List OverrideWord, overrides.map OverrideWord.text = words) ∨
      ∃ failure, FirstFault words failure := by
  induction words with
  | nil => exact Or.inl ⟨[], rfl⟩
  | cons first words ih =>
      rcases exists_parts_or_fault first with ⟨parts, rfl⟩ | ⟨failure, hfault⟩
      · rcases ih with ⟨overrides, rfl⟩ | ⟨failure, front, word, rest, rfl, hfront, hfault⟩
        · exact Or.inl ⟨parts :: overrides, rfl⟩
        · exact Or.inr ⟨failure, parts.text :: front, word, rest, rfl,
            List.forall_mem_cons.mpr ⟨⟨parts, rfl⟩, hfront⟩, hfault⟩
      · exact Or.inr ⟨failure, [], first, words, rfl, fun _ h => absurd h List.not_mem_nil, hfault⟩

theorem exists_overrides_iff {words : List Text} :
    (∃ overrides : List OverrideWord, overrides.map OverrideWord.text = words) ↔
      ∀ word ∈ words, ¬ ∃ failure, OverrideFault word failure := by
  constructor
  · rintro ⟨overrides, rfl⟩ word hword hfault
    obtain ⟨parts, -, rfl⟩ := List.mem_map.mp hword
    exact exists_fault_iff.mp hfault ⟨parts, rfl⟩
  · intro h
    refine (exists_overrides_or_firstFault words).resolve_right ?_
    rintro ⟨failure, front, word, rest, rfl, -, hfault⟩
    exact h word (List.mem_append_right _ List.mem_cons_self) ⟨failure, hfault⟩

theorem exists_firstFault_iff {words : List Text} :
    (∃ failure, FirstFault words failure) ↔ ∃ word ∈ words, ∃ failure, OverrideFault word failure := by
  constructor
  · rintro ⟨failure, front, word, rest, rfl, -, hfault⟩
    exact ⟨word, List.mem_append_right _ List.mem_cons_self, failure, hfault⟩
  · rintro ⟨word, hword, hfault⟩
    refine (exists_overrides_or_firstFault words).resolve_left fun hparts => ?_
    exact exists_overrides_iff.mp hparts word hword hfault

/-! ## §3. Before any file. -/

section Loading

variable {files : FileView} {workingDirectory : Path} {config : Option Path}

theorem loadSettings_of_firstFault {words : List Text} {failure : Failure}
    (h : FirstFault words failure) :
    loadSettings files workingDirectory config words = .error failure := by
  unfold loadSettings
  rw [sourcesOf_eq_error_iff.mpr h]

theorem loadSettings_text (overrides : List OverrideWord) :
    loadSettings files workingDirectory config (overrides.map OverrideWord.text) =
      ((overrideSources config overrides).load files workingDirectory).mapError .settings := by
  unfold loadSettings
  rw [sourcesOf_text]

/-- A run with a fault in its overrides looks up no file at all, and any other run looks for the
settings file of the working directory. -/
theorem consulted_eq_nil_iff {words : List Text} {command : Command} :
    (Request.run config words command).consulted files workingDirectory = [] ↔
      ∃ failure, FirstFault words failure := by
  unfold Request.consulted
  dsimp only
  constructor
  · intro h
    refine (exists_overrides_or_firstFault words).resolve_left ?_
    rintro ⟨overrides, rfl⟩
    rw [sourcesOf_text] at h
    exact nomatch (List.append_eq_nil_iff.mp h).1
  · rintro ⟨failure, hfault⟩
    rw [sourcesOf_eq_error_iff.mpr hfault]

/-- A file system in which nothing exists. -/
def emptyView : FileView := fun _ => .error .missing

/-- A file system in which every path holds a file that is no TOML document. -/
def garbledView : FileView := fun _ => .ok (Utf8.encode ['='])

theorem read_emptyView (path : Path) :
    SettingsFile.read emptyView workingDirectory path = .error (.fileMissing path) := by
  have hnone : SettingsFile.find? emptyView (SettingsFile.candidates workingDirectory path) = none := by
    unfold SettingsFile.find?
    rw [List.findSome?_eq_none_iff]
    exact fun candidate _ => rfl
  unfold SettingsFile.read
  rw [hnone]

theorem read_garbledView (path : Path) :
    SettingsFile.read garbledView workingDirectory path = .error (.fileSyntax path) := by
  have hdocument : Toml.readDocument? ['='] = none := by decide +kernel
  have hdecode : Utf8.decode? (Utf8.encode ['=']) = some ['='] := by decide
  have hfind : SettingsFile.find? garbledView (SettingsFile.candidates workingDirectory path) =
      some (workingDirectory.join path, Utf8.encode ['=']) := rfl
  unfold SettingsFile.read
  rw [hfind]
  dsimp only
  rw [hdecode]
  dsimp only
  rw [hdocument]

/-- Where nothing exists, no file is wrong in itself. -/
theorem load_emptyView_ne_fileSyntax (sources : Sources) (path : Path) :
    sources.load emptyView workingDirectory ≠ .error (.fileSyntax path) := by
  rw [Sources.load_eq_bind]
  intro h
  rcases bind_eq_error_iff.mp h with hfiles | ⟨values, -, hsettings⟩
  · obtain ⟨file, -, hread⟩ := exists_read_of_foldlM_add hfiles
    rw [read_emptyView] at hread
    exact nomatch hread
  · rcases Assignment.error_of_settings hsettings with ⟨key, value, h⟩ | ⟨marker, h⟩
    · exact nomatch h
    · exact nomatch h

/-- A settings file in the working directory that is no TOML document is reported. -/
theorem load_garbledView (overrides : List OverrideWord) :
    (overrideSources config overrides).load garbledView workingDirectory =
      .error (.fileSyntax localSettings.path) := by
  have hlocal : SettingsFile.add garbledView workingDirectory Assignment.default localSettings =
      .error (.fileSyntax localSettings.path) := by
    unfold SettingsFile.add
    rw [read_garbledView]
    rfl
  rw [Sources.load_eq_bind]
  unfold overrideSources
  rw [List.foldlM_cons, hlocal]
  rfl

/-- **Without a fault, what loading gives is up to the files**: no failure is the same for all of
them. -/
theorem not_forall_loadSettings_eq_error (overrides : List OverrideWord) :
    ¬ ∃ failure, ∀ files, loadSettings files workingDirectory config
      (overrides.map OverrideWord.text) = .error failure := by
  rintro ⟨failure, hall⟩
  simp only [loadSettings_text, mapError_eq_error_iff] at hall
  obtain ⟨error, hgarbled, rfl⟩ := hall garbledView
  obtain ⟨other, hempty, heq⟩ := hall emptyView
  obtain rfl := Failure.settings.inj heq
  rw [load_garbledView] at hgarbled
  obtain rfl := Except.error.inj hgarbled
  exact load_emptyView_ne_fileSyntax _ _ hempty

end Loading

/-! ## §4. The last override of a setting. -/

/-- What overrides say last about a setting is up to those for this setting. -/
theorem lastBound_overrides (overrides : List OverrideWord) (key : SettingKey) :
    lastBound (overrideValue? key) (overrides.map fun parts => (parts.key, .text parts.value)) =
      lastBound (fun parts : OverrideWord => some (.text parts.value))
        (overrides.filter (·.key = key)) := by
  unfold lastBound
  rw [List.filterMap_map, List.filterMap_filter]
  congr 2
  funext parts
  simp [overrideValue?, eq_comm]

/-- **The last override of a setting says what it is.** -/
theorem get_of_last_override {files : FileView} {workingDirectory : Path} {config : Option Path}
    {front rest : List OverrideWord} {parts : OverrideWord} {settings : Settings}
    (hload : (overrideSources config (front ++ parts :: rest)).load files workingDirectory =
      .ok settings) (hlast : ∀ later ∈ rest, later.key ≠ parts.key) :
    settings.get parts.key = parts.value := by
  have hbound : lastBound (overrideValue? parts.key)
      ((front ++ parts :: rest).map fun parts => (parts.key, .text parts.value)) =
        some (.text parts.value) := by
    rw [List.map_append, List.map_cons]
    refine lastBound_append_cons (if_pos rfl) fun later hlater => ?_
    obtain ⟨other, hother, rfl⟩ := List.mem_map.mp hlater
    exact if_neg fun h => hlast other hother h.symm
  have hget := Sources.get_of_load hload parts.key
  unfold Sources.lastValue overrideSources at hget
  rw [hbound] at hget
  exact (SettingValue.text.inj hget).symm

/-- **Reordering overrides of different settings makes no difference.** -/
theorem load_congr_overrides {files : FileView} {workingDirectory : Path} {config : Option Path}
    {overrides other : List OverrideWord}
    (h : ∀ key, other.filter (·.key = key) = overrides.filter (·.key = key)) :
    (overrideSources config other).load files workingDirectory =
      (overrideSources config overrides).load files workingDirectory := by
  have hlast : ∀ values : Assignment,
      values.addOverrides (overrideSources config other).overrides =
        values.addOverrides (overrideSources config overrides).overrides := by
    intro values
    funext key
    unfold overrideSources
    rw [addOverrides_apply, addOverrides_apply, lastBound_overrides, lastBound_overrides, h key]
  rw [Sources.load_eq_bind, Sources.load_eq_bind]
  simp only [hlast]
  rfl

/-- **Overrides are checked before any file, and the last one counts.** Some word has a fault
exactly if loading fails in the same way whatever the files are, and exactly if a run looks up no
file at all. The fault that is reported is the first one; it names the word that has no equals sign
in it, or what stands in front of the first equals sign, without white space around it. Words
without a fault are overrides. If settings are loaded, then a setting that overrides name has just
the text behind the first equals sign of the last of them; every setting is what was said last
about it, by the overrides, else by the given settings file, else by the one of the working
directory, else by the defaults; and only the order among overrides of the same setting makes a
difference. -/
theorem overrides_first_and_last (workingDirectory : Path) (config : Option Path)
    (words : List Text) :
    ((∃ failure, ∀ files, loadSettings files workingDirectory config words = .error failure) ↔
      ∃ word ∈ words, ∃ failure, OverrideFault word failure) ∧
    (∀ files command, (Request.run config words command).consulted files workingDirectory = [] ↔
      ∃ word ∈ words, ∃ failure, OverrideFault word failure) ∧
    (∀ files failure, (∃ word, OverrideFault word failure) →
      (loadSettings files workingDirectory config words = .error failure ↔
        FirstFault words failure)) ∧
    ((∃ overrides : List OverrideWord, overrides.map OverrideWord.text = words) ↔
      ∀ word ∈ words, ¬ ∃ failure, OverrideFault word failure) ∧
    ∀ overrides : List OverrideWord, overrides.map OverrideWord.text = words → ∀ files,
      (∀ settings, loadSettings files workingDirectory config words = .ok settings →
        (∀ front parts rest, overrides = front ++ parts :: rest →
          (∀ later ∈ rest, later.key ≠ parts.key) → settings.get parts.key = parts.value) ∧
        ∀ key, (overrideSources config overrides).lastValue files workingDirectory key =
          .text (settings.get key)) ∧
      ∀ other : List OverrideWord,
        (∀ key, other.filter (·.key = key) = overrides.filter (·.key = key)) →
        loadSettings files workingDirectory config (other.map OverrideWord.text) =
          loadSettings files workingDirectory config words := by
  refine ⟨?_, ?_, ?_, exists_overrides_iff, ?_⟩
  · rw [← exists_firstFault_iff]
    constructor
    · intro hall
      refine (exists_overrides_or_firstFault words).resolve_left ?_
      rintro ⟨overrides, rfl⟩
      exact not_forall_loadSettings_eq_error overrides hall
    · rintro ⟨failure, hfault⟩
      exact ⟨failure, fun files => loadSettings_of_firstFault hfault⟩
  · intro files command
    rw [← exists_firstFault_iff]
    exact consulted_eq_nil_iff
  · rintro files failure ⟨word, hword⟩
    refine ⟨fun hload => ?_, loadSettings_of_firstFault⟩
    rcases exists_overrides_or_firstFault words with ⟨overrides, rfl⟩ | ⟨first, hfirst⟩
    · -- Without a fault among the words, what is wrong is no fault of a word.
      rw [loadSettings_text] at hload
      obtain ⟨error, herror, rfl⟩ := mapError_eq_error_iff.mp hload
      cases hword with
      | unknownKey => exact absurd herror (Sources.load_ne_unknownKey _ _)
    · rw [loadSettings_of_firstFault hfirst] at hload
      obtain rfl := Except.error.inj hload
      exact hfirst
  · rintro overrides rfl files
    refine ⟨fun settings hsettings => ?_, fun other hother => ?_⟩
    · rw [loadSettings_text] at hsettings
      have hload := mapError_eq_ok_iff.mp hsettings
      refine ⟨?_, Sources.get_of_load hload⟩
      rintro front parts rest rfl
      exact get_of_last_override hload
    · rw [loadSettings_text, loadSettings_text, load_congr_overrides hother]

/-! ## §5. Overrides above two files. -/

/-- A settings file in the working directory, and another one to be given. -/
def settingsFiles : FileView := fun path =>
  if path = .ofText "/autoyaml.toml".toList then
    .ok (Utf8.encode "autoyaml_root = 'a'\nautoyaml_comment = '-'".toList)
  else if path = .ofText "/given.toml".toList then
    .ok (Utf8.encode "autoyaml_root = 'b'\nautoyaml_doc_delimiter = 42".toList)
  else .error .missing

/-- Two overrides of one marker, with white space and equals signs, and one of another marker. -/
def sampleOverrides : List OverrideWord :=
  [⟨[], .marker .comment, [], "//".toList, List.forall_mem_nil _, List.forall_mem_nil _⟩,
    ⟨[], .marker .docParameter, ['\t'], "%%".toList, List.forall_mem_nil _,
      List.forall_mem_singleton.mpr (by decide)⟩,
    ⟨['\u00a0'], .marker .comment, [' '], " =; ".toList,
      List.forall_mem_singleton.mpr (by decide), List.forall_mem_singleton.mpr (by decide)⟩]

/-- The root and the delimiter of the given file, and the last override of each other marker. -/
def overriddenSettings : Settings where
  root := ['b']
  markers := ⟨"42".toList, "%%".toList, " =; ".toList, by decide, by decide, by decide⟩

/-- A fault behind an override and in front of another fault is reported without any file; the
sample overrides stand above the two files, in either order of the two markers. -/
theorem overrides_first_and_last_sample :
    (∀ files, loadSettings files (.ofText "/".toList) none
      ["autoyaml_root=".toList, " color\u2003=red".toList, "autoyaml_comment".toList] =
        .error (.settings (.unknownKey "color".toList))) ∧
    loadSettings settingsFiles (.ofText "/".toList) (some (.ofText "given.toml".toList))
      (sampleOverrides.map OverrideWord.text) = .ok overriddenSettings ∧
    overriddenSettings.get (.marker .comment) = " =; ".toList ∧
    loadSettings settingsFiles (.ofText "/".toList) (some (.ofText "given.toml".toList))
      ([sampleOverrides[1], sampleOverrides[0], sampleOverrides[2]].map OverrideWord.text) =
        .ok overriddenSettings := by
  obtain ⟨-, -, hfault, -, -⟩ := overrides_first_and_last (.ofText "/".toList) none
    ["autoyaml_root=".toList, " color\u2003=red".toList, "autoyaml_comment".toList]
  obtain ⟨-, -, -, -, hvalues⟩ := overrides_first_and_last (.ofText "/".toList)
    (some (.ofText "given.toml".toList)) (sampleOverrides.map OverrideWord.text)
  obtain ⟨hlast, horder⟩ := hvalues sampleOverrides rfl settingsFiles
  have hload : loadSettings settingsFiles (.ofText "/".toList)
      (some (.ofText "given.toml".toList)) (sampleOverrides.map OverrideWord.text) =
        .ok overriddenSettings := by decide +kernel
  have hunknown : OverrideFault " color\u2003=red".toList
      (.settings (.unknownKey "color".toList)) := by
    refine @OverrideFault.unknownKey " color\u2003".toList _ "red".toList (by decide)
      (Text.trim_eq_iff.mp (by decide)) fun key => ?_
    rcases key with _ | _ | _ | _ <;> decide
  refine ⟨fun files => ?_, hload, ?_, ?_⟩
  · refine (hfault files _ ⟨_, hunknown⟩).mpr
      ⟨["autoyaml_root=".toList], _, _, rfl, List.forall_mem_singleton.mpr ?_, hunknown⟩
    exact ⟨⟨[], .root, [], [], List.forall_mem_nil _, List.forall_mem_nil _⟩, rfl⟩
  · exact (hlast _ hload).1 sampleOverrides.dropLast sampleOverrides[2] [] rfl
      (List.forall_mem_nil _)
  · refine (horder [sampleOverrides[1], sampleOverrides[0], sampleOverrides[2]] ?_).trans hload
    intro key
    rcases key with _ | _ | _ | _ <;> rfl

end YamlDocs
