/-
  YamlDocs.Proofs.Settings.Loading
  ────────────────────────────────
  **WHERE A LOADED TEXT COMES FROM.**

  Files and overrides may bind a setting to anything, as long as a later
  layer binds it to text.  What is loaded for a setting is the last thing
  that was said about it: by the overrides, else by the files from the last
  one to the first, else by the defaults (`Sources.get_of_load`).  Nothing is
  assumed of the files here but that loading succeeds.

  An entry that reaches into a setting leaves no text, so whatever it makes
  of the setting's former value cannot be loaded and is not looked at:
  values are compared by their texts alone (`SettingValue.text?`).
-/
import YamlDocs.Proofs.Result
import YamlDocs.Proofs.Settings.Precedence

namespace YamlDocs

/-! ## §1. Texts of values. -/

namespace SettingValue

/-- The text that a value is. -/
def text? : SettingValue → Option Text
  | .text value => some value
  | _ => none

theorem text?_eq_some_iff {value : SettingValue} {text : Text} :
    value.text? = some text ↔ value = .text text := by
  cases value <;> simp [text?]

/-- A value of which an element is set is an array. -/
theorem text?_withElement (value : SettingValue) : value.withElement.text? = none := by
  cases value <;> rfl

end SettingValue

/-! ## §2. What files say about a setting. -/

/-- What an entry says about a setting: the value of its key, a table if the key names a member of
one, or an array if it names an element. -/
def entryValue? (origin : Text) (key : SettingKey) (entry : Text × Toml.Value) :
    Option SettingValue :=
  match KeyTarget.ofKey entry.1 with
  | .whole name =>
    if Text.lowerAscii name = key.text then SettingValue.ofValue? origin entry.2 else none
  | .member name => if Text.lowerAscii name = key.text then some .table else none
  | .element name => if Text.lowerAscii name = key.text then some (.sequence none) else none

/-- A setting that is set has the new value, and the others keep theirs. -/
theorem set_apply (values : Assignment) (setting : SettingKey) (value : SettingValue)
    (key : SettingKey) :
    values.set setting value key =
      (if some setting = some key then some value else none).getD (values key) := by
  unfold Assignment.set
  by_cases h : key = setting
  · subst h
    simp
  · have hne : ¬ setting = key := fun heq => h heq.symm
    simp [h, hne]

/-- **An entry leaves what it says about a setting**, or the former value. -/
theorem text?_addEntry (origin : Text) (values : Assignment) (entry : Text × Toml.Value)
    (key : SettingKey) :
    (values.addEntry origin entry key).text? =
      ((entryValue? origin key entry).getD (values key)).text? := by
  obtain ⟨name, value⟩ := entry
  unfold Assignment.addEntry entryValue?
  simp only [← SettingKey.ofText?_eq_some_iff]
  cases KeyTarget.ofKey name with
  | whole name =>
      dsimp only
      cases SettingKey.ofText? (Text.lowerAscii name) with
      | none => rfl
      | some setting =>
          cases SettingValue.ofValue? origin value with
          | none => simp
          | some bound =>
              dsimp only
              rw [set_apply]
  | member name =>
      dsimp only
      cases SettingKey.ofText? (Text.lowerAscii name) with
      | none => rfl
      | some setting =>
          dsimp only
          rw [set_apply]
  | element name =>
      dsimp only
      cases SettingKey.ofText? (Text.lowerAscii name) with
      | none => rfl
      | some setting =>
          dsimp only
          rw [set_apply]
          -- An array is no text, wherever it comes from.
          split
          case isTrue => exact SettingValue.text?_withElement _
          case isFalse => rfl

theorem text?_addEntries (origin : Text) (entries : List (Text × Toml.Value)) (key : SettingKey) :
    ∀ values : Assignment, (values.addEntries origin entries key).text? =
      ((lastBound (entryValue? origin key) entries).getD (values key)).text? := by
  induction entries with
  | nil => exact fun values => rfl
  | cons entry rest ih =>
      intro values
      show ((values.addEntry origin entry).addEntries origin rest key).text? = _
      rw [ih, lastBound_cons]
      cases lastBound (entryValue? origin key) rest with
      | none => exact text?_addEntry origin values entry key
      | some value => rfl

section Files

variable (files : FileView) (workingDirectory : Path)

/-- What the file at a path says about a setting: what its last entry about it says. -/
def fileValue? (key : SettingKey) (path : Path) : Option SettingValue :=
  match SettingsFile.read files workingDirectory path with
  | .ok (origin, entries) => lastBound (entryValue? origin key) entries
  | .error _ => none

variable {files workingDirectory} {values next : Assignment}

theorem text?_of_add {file : SettingsFile}
    (h : SettingsFile.add files workingDirectory values file = .ok next) (key : SettingKey) :
    (next key).text? =
      ((fileValue? files workingDirectory key file.path).getD (values key)).text? := by
  unfold SettingsFile.add at h
  unfold fileValue?
  cases hread : SettingsFile.read files workingDirectory file.path with
  | ok content =>
      obtain ⟨origin, entries⟩ := content
      rw [hread] at h
      obtain rfl := Except.ok.inj h
      exact text?_addEntries origin entries key values
  | error error =>
      rw [hread] at h
      simp only at h
      split at h
      case isTrue =>
        obtain rfl := Except.ok.inj h
        rfl
      case isFalse => exact nomatch h

/-- **Files leave what the last of them says about a setting**, or the former value. -/
theorem text?_of_foldlM_add {list : List SettingsFile}
    (h : list.foldlM (SettingsFile.add files workingDirectory) values = .ok next)
    (key : SettingKey) :
    (next key).text? =
      ((lastBound (fun file => fileValue? files workingDirectory key file.path) list).getD
        (values key)).text? := by
  induction list generalizing values with
  | nil =>
      obtain rfl := Except.ok.inj h
      rfl
  | cons file rest ih =>
      rw [List.foldlM_cons] at h
      obtain ⟨middle, hfile, hrest⟩ := bind_eq_ok_iff.mp h
      rw [ih hrest, lastBound_cons]
      cases lastBound (fun file => fileValue? files workingDirectory key file.path) rest with
      | none => exact text?_of_add hfile key
      | some value => rfl

end Files

/-! ## §3. What sources say about a setting. -/

/-- What an override says about a setting. -/
def overrideValue? (key : SettingKey) (override : SettingKey × SettingValue) :
    Option SettingValue :=
  if key = override.1 then some override.2 else none

theorem addOverrides_apply (overrides : List (SettingKey × SettingValue)) (key : SettingKey) :
    ∀ values : Assignment, values.addOverrides overrides key =
      (lastBound (overrideValue? key) overrides).getD (values key) := by
  induction overrides with
  | nil => exact fun values => rfl
  | cons override rest ih =>
      intro values
      show (values.set override.1 override.2).addOverrides rest key = _
      rw [ih, lastBound_cons]
      cases lastBound (overrideValue? key) rest with
      | some value => rfl
      | none =>
          rw [set_apply]
          unfold overrideValue?
          simp [eq_comm]

/-- What is said last about a setting: by the overrides, else by the files, else by the defaults. -/
def Sources.lastValue (files : FileView) (workingDirectory : Path) (sources : Sources)
    (key : SettingKey) : SettingValue :=
  ((lastBound (overrideValue? key) sources.overrides).or
    (lastBound (fun file => fileValue? files workingDirectory key file.path) sources.files)).getD
      (Assignment.default key)

theorem Assignment.text_eq_ok_iff {values : Assignment} {key : SettingKey} {text : Text} :
    values.text key = .ok text ↔ values key = .text text := by
  unfold Assignment.text
  split
  case h_1 value hvalue => simp [hvalue]
  case h_2 value hvalue => exact iff_of_false (fun h => nomatch h) (hvalue text)

/-- Settings are made of texts, and hold them. -/
theorem Assignment.get_of_settings {values : Assignment} {settings : Settings}
    (h : values.settings = .ok settings) (key : SettingKey) :
    values key = .text (settings.get key) := by
  have hvalues := h
  unfold Assignment.settings at hvalues
  obtain ⟨root, hroot, hvalues⟩ := bind_eq_ok_iff.mp hvalues
  obtain ⟨docDelimiter, hdelimiter, hvalues⟩ := bind_eq_ok_iff.mp hvalues
  obtain ⟨docParameter, hparameter, hvalues⟩ := bind_eq_ok_iff.mp hvalues
  obtain ⟨comment, hcomment, -⟩ := bind_eq_ok_iff.mp hvalues
  have hall : ∀ key, ∃ text, values key = .text text := by
    intro key
    rcases key with _ | _ | _ | _
    · exact ⟨root, text_eq_ok_iff.mp hroot⟩
    · exact ⟨docDelimiter, text_eq_ok_iff.mp hdelimiter⟩
    · exact ⟨docParameter, text_eq_ok_iff.mp hparameter⟩
    · exact ⟨comment, text_eq_ok_iff.mp hcomment⟩
  choose texts htexts using hall
  obtain rfl : values = fun key => .text (texts key) := funext htexts
  exact congrArg SettingValue.text ((settings_eq_ok_iff.mp h).2 key).symm

/-- Loading merges the files, lays the overrides over them and reads the settings off. -/
theorem Sources.load_eq_bind (files : FileView) (workingDirectory : Path) (sources : Sources) :
    sources.load files workingDirectory =
      sources.files.foldlM (SettingsFile.add files workingDirectory) Assignment.default >>=
        fun values => (values.addOverrides sources.overrides).settings := by
  unfold load merge
  cases sources.files.foldlM (SettingsFile.add files workingDirectory) Assignment.default <;> rfl

/-- **What is loaded for a setting is what was said last about it.** -/
theorem Sources.get_of_load {files : FileView} {workingDirectory : Path} {sources : Sources}
    {settings : Settings} (h : sources.load files workingDirectory = .ok settings)
    (key : SettingKey) :
    sources.lastValue files workingDirectory key = .text (settings.get key) := by
  rw [load_eq_bind] at h
  obtain ⟨values, hfiles, hsettings⟩ := bind_eq_ok_iff.mp h
  have hget := Assignment.get_of_settings hsettings key
  have hvalues := text?_of_foldlM_add hfiles key
  rw [addOverrides_apply] at hget
  unfold lastValue
  cases hover : lastBound (overrideValue? key) sources.overrides with
  | some value =>
      rw [hover] at hget
      exact hget
  | none =>
      -- The overrides say nothing, so the text comes from below them.
      rw [hover, Option.getD_none] at hget
      rw [hget] at hvalues
      exact SettingValue.text?_eq_some_iff.mp hvalues.symm

/-! ## §4. What can be wrong. -/

/-- What is wrong with merged values is the type of one, or a marker. -/
theorem Assignment.error_of_settings {values : Assignment} {error : SettingsError}
    (h : values.settings = .error error) :
    (∃ key value, error = .wrongType key value) ∨ ∃ marker, error = .marker marker := by
  have htext : ∀ key, values.text key = .error error → ∃ key value, error = .wrongType key value := by
    intro key htext
    unfold Assignment.text at htext
    split at htext
    case h_1 => exact nomatch htext
    case h_2 => exact ⟨key, values key, (Except.error.inj htext).symm⟩
  unfold Assignment.settings at h
  rcases bind_eq_error_iff.mp h with h | ⟨root, -, h⟩
  · exact Or.inl (htext _ h)
  rcases bind_eq_error_iff.mp h with h | ⟨docDelimiter, -, h⟩
  · exact Or.inl (htext _ h)
  rcases bind_eq_error_iff.mp h with h | ⟨docParameter, -, h⟩
  · exact Or.inl (htext _ h)
  rcases bind_eq_error_iff.mp h with h | ⟨comment, -, h⟩
  · exact Or.inl (htext _ h)
  · split at h
    case h_1 => exact nomatch h
    case h_2 marker _ => exact Or.inr ⟨marker, (Except.error.inj h).symm⟩

section Errors

variable {files : FileView} {workingDirectory : Path}

/-- What is wrong with files is what is wrong with reading one of them. -/
theorem exists_read_of_foldlM_add {list : List SettingsFile} {values : Assignment}
    {error : SettingsError}
    (h : list.foldlM (SettingsFile.add files workingDirectory) values = .error error) :
    ∃ file ∈ list, SettingsFile.read files workingDirectory file.path = .error error := by
  induction list generalizing values with
  | nil => exact nomatch h
  | cons file rest ih =>
      rw [List.foldlM_cons] at h
      rcases bind_eq_error_iff.mp h with hfile | ⟨middle, -, hrest⟩
      · refine ⟨file, List.mem_cons_self, ?_⟩
        unfold SettingsFile.add at hfile
        split at hfile
        case h_1 => exact nomatch hfile
        case h_2 other hother =>
          split at hfile
          case isTrue => exact nomatch hfile
          case isFalse =>
            obtain rfl := Except.error.inj hfile
            exact hother
      · obtain ⟨other, hother, hread⟩ := ih hrest
        exact ⟨other, List.mem_cons_of_mem file hother, hread⟩

theorem read_ne_unknownKey (path : Path) (name : Text) :
    SettingsFile.read files workingDirectory path ≠ .error (.unknownKey name) := by
  intro hread
  unfold SettingsFile.read at hread
  split at hread
  · cases hread
  split at hread
  · cases hread
  split at hread
  · cases hread
  · split at hread <;> cases hread

/-- **Loading reports nothing about keys of overrides**; they are checked before. -/
theorem Sources.load_ne_unknownKey (sources : Sources) (name : Text) :
    sources.load files workingDirectory ≠ .error (.unknownKey name) := by
  rw [load_eq_bind]
  intro h
  rcases bind_eq_error_iff.mp h with hfiles | ⟨values, -, hsettings⟩
  · obtain ⟨file, -, hread⟩ := exists_read_of_foldlM_add hfiles
    exact read_ne_unknownKey file.path name hread
  · rcases Assignment.error_of_settings hsettings with ⟨key, value, h⟩ | ⟨marker, h⟩
    · exact nomatch h
    · exact nomatch h

end Errors

end YamlDocs
