/-
  YamlDocs.Proofs.Settings.Binding
  ────────────────────────────────
  **THE LAST BINDING COUNTS.**

  Entries, files and overrides all do the same to an assignment: they lay
  texts over it, a text for some settings and nothing for the others
  (`Assignment.withTexts`).  Laying texts one over the other leaves for each
  setting the text that came last (`foldl_withTexts`).  So what an entry
  does, what a file does and what a list of files or overrides does is one
  layer of texts each, as long as only strings are bound.
-/
import YamlDocs.Settings.Layer
import Mathlib.Data.List.Basic
import Mathlib.Data.List.TakeDrop
import Mathlib.Data.List.TakeWhile

namespace YamlDocs

/-! ## §1. Texts above an assignment. -/

/-- What the last item that binds anything binds. -/
def lastBound {α β : Type} (bound? : α → Option β) (items : List α) : Option β :=
  (items.filterMap bound?).getLast?

theorem lastBound_cons {α β : Type} (bound? : α → Option β) (item : α) (items : List α) :
    lastBound bound? (item :: items) = (lastBound bound? items).or (bound? item) := by
  unfold lastBound
  cases hitem : bound? item with
  | none => rw [List.filterMap_cons_none hitem, Option.or_none]
  | some value =>
      rw [List.filterMap_cons_some hitem, List.getLast?_cons]
      cases (items.filterMap bound?).getLast? <;> rfl

/-- The last item that binds anything, with nothing bound behind it. -/
theorem lastBound_append_cons {α β : Type} {bound? : α → Option β} {front rest : List α} {item : α}
    {value : β} (hitem : bound? item = some value) (hrest : ∀ later ∈ rest, bound? later = none) :
    lastBound bound? (front ++ item :: rest) = some value := by
  have hnone : rest.filterMap bound? = [] := List.filterMap_eq_nil_iff.mpr hrest
  unfold lastBound
  rw [List.filterMap_append, List.filterMap_cons_some hitem, hnone, List.getLast?_concat]

/-- Binding through a part of the items. -/
theorem lastBound_filterMap {α β γ : Type} (part? : α → Option β) (bound? : β → Option γ)
    (items : List α) :
    lastBound bound? (items.filterMap part?) =
      lastBound (fun item => (part? item).bind bound?) items := by
  unfold lastBound
  rw [List.filterMap_filterMap]

namespace Assignment

/-- The assignment with texts laid over it, for the settings that have one. -/
def withTexts (values : Assignment) (texts : SettingKey → Option Text) : Assignment :=
  fun key => ((texts key).map SettingValue.text).getD (values key)

theorem withTexts_none (values : Assignment) : (values.withTexts fun _ => none) = values := rfl

/-- Texts over the defaults leave nothing but texts. -/
theorem default_withTexts (texts : SettingKey → Option Text) :
    default.withTexts texts = fun key => .text ((texts key).getD (Settings.default.get key)) := by
  funext key
  unfold withTexts
  cases texts key <;> rfl

/-- Of two texts for a setting the one on top counts. -/
theorem withTexts_withTexts (values : Assignment) (first second : SettingKey → Option Text) :
    (values.withTexts first).withTexts second =
      values.withTexts fun key => (second key).or (first key) := by
  funext key
  unfold withTexts
  cases hsecond : second key <;> simp [hsecond]

/-- Binding one setting to a text. -/
theorem set_text (values : Assignment) (setting : SettingKey) (text : Text) :
    values.set setting (.text text) =
      values.withTexts fun key => if key = setting then some text else none := by
  funext key
  unfold set withTexts
  by_cases h : key = setting <;> simp [h]

/-- **Layers of texts one over the other leave the last text of each setting.** -/
theorem foldl_withTexts {α : Type} (texts : α → SettingKey → Option Text) (items : List α) :
    ∀ values : Assignment,
      items.foldl (fun values item => values.withTexts (texts item)) values =
        values.withTexts fun key => lastBound (texts · key) items := by
  induction items with
  | nil => exact fun values => (withTexts_none values).symm
  | cons item items ih =>
      intro values
      rw [List.foldl_cons, ih, withTexts_withTexts]
      simp only [lastBound_cons]

end Assignment

/-! ## §2. Keys. -/

theorem SettingKey.ofText?_eq_some_iff {text : Text} {key : SettingKey} :
    SettingKey.ofText? text = some key ↔ text = key.text := by
  constructor
  · intro h
    have := List.find?_some h
    exact (of_decide_eq_true this).symm
  · intro h
    subst h
    rcases key with _ | name
    · decide
    · cases name <;> decide

theorem SettingKey.text_injective {key other : SettingKey} (h : key.text = other.text) :
    key = other :=
  Option.some.inj ((ofText?_eq_some_iff.mpr rfl).symm.trans (ofText?_eq_some_iff.mpr h))

theorem isNameChar_of_toLower {c : Char} (h : KeyTarget.isNameChar c.toLower = true) :
    KeyTarget.isNameChar c = true := by
  by_cases hcapital : c.val ≥ 'A'.val ∧ c.val ≤ 'Z'.val
  · -- A capital letter is a name character as it is.
    have hupper : c.isUpper = true := decide_eq_true hcapital
    show ((c.isUpper || c.isLower || c.isDigit) || c == '_' || c == ' ' || c == '-') = true
    simp only [hupper, Bool.true_or]
  · have hsame : c.toLower = c := dif_neg hcapital
    rwa [hsame] at h

/-- A name of a setting, in letters of any case, is about the whole setting. -/
theorem ofKey_eq_whole {name : Text} {key : SettingKey} (h : Text.lowerAscii name = key.text) :
    KeyTarget.ofKey name = .whole name := by
  have hkey : ∀ c ∈ key.text, KeyTarget.isNameChar c = true := by
    rw [← List.all_eq_true]
    rcases key with _ | marker
    · decide
    · cases marker <;> decide
  have hname : ∀ c ∈ name, KeyTarget.isNameChar c = true := by
    intro c hc
    refine isNameChar_of_toLower (hkey _ ?_)
    rw [← h]
    exact List.mem_map_of_mem hc
  have hspan : name.span KeyTarget.isNameChar = (name, []) := by
    rw [List.span_eq_takeWhile_dropWhile, List.takeWhile_eq_self_iff.mpr hname,
      List.dropWhile_eq_nil_iff.mpr hname]
  unfold KeyTarget.ofKey
  rw [hspan]
  dsimp only
  split <;> rfl

theorem eq_of_ofKey_eq_whole {key name : Text} (h : KeyTarget.ofKey key = .whole name) :
    name = key := by
  have hkey := (key.takeWhile_append_dropWhile (p := KeyTarget.isNameChar)).symm
  unfold KeyTarget.ofKey at h
  rw [List.span_eq_takeWhile_dropWhile] at h
  dsimp only at h
  generalize key.takeWhile KeyTarget.isNameChar = before at h hkey
  generalize key.dropWhile KeyTarget.isNameChar = reach at h hkey
  split at h
  case isTrue hreach =>
    split at h
    case h_1 => exact nomatch h
    case h_2 => exact nomatch h
    case h_3 hdot hbracket =>
      -- What reaches nowhere is empty, so the name is the whole key.
      cases reach with
      | nil =>
          obtain rfl := KeyTarget.whole.inj h
          rw [hkey, List.append_nil]
      | cons c rest =>
          have hc : c ≠ '.' ∧ c ≠ '[' :=
            ⟨fun hc => hdot rest (by rw [hc]), fun hc => hbracket rest (by rw [hc])⟩
          simp [KeyTarget.isReach, hc] at hreach
  case isFalse => exact (KeyTarget.whole.inj h).symm

/-! ## §3. Entries of a file. -/

/-- The text of a string. -/
def Toml.Value.string? : Toml.Value → Option Text
  | .scalar (.string text) => some text
  | _ => none

/-- The name of the table or array that a key reaches into. -/
def KeyTarget.reached? : KeyTarget → Option Text
  | .whole _ => none
  | .member name => some name
  | .element name => some name

/-- The text that an entry binds a setting to; its key is spelled in letters of any case. -/
def entryText? (key : SettingKey) (entry : Text × Toml.Value) : Option Text :=
  if Text.lowerAscii entry.1 = key.text then entry.2.string? else none

/-- An entry that binds a setting to nothing but a string. -/
structure IsPlainEntry (entry : Text × Toml.Value) : Prop where
  /-- If its key is the one of a setting, its value is a string. -/
  is_string : ∀ key : SettingKey, Text.lowerAscii entry.1 = key.text →
    ∃ text, entry.2 = .scalar (.string text)
  /-- Its key reaches into no setting. -/
  reaches_outside : ∀ name, (KeyTarget.ofKey entry.1).reached? = some name →
    ∀ key : SettingKey, Text.lowerAscii name ≠ key.text

theorem SettingKey.mem_all (key : SettingKey) : key ∈ SettingKey.all := by
  rcases key with _ | name
  · decide
  · cases name <;> decide

theorem Toml.Value.isSome_string?_iff {value : Toml.Value} :
    value.string?.isSome = true ↔ ∃ text, value = .scalar (.string text) := by
  constructor
  · intro h
    unfold string? at h
    split at h
    case h_1 text => exact ⟨text, rfl⟩
    case h_2 => exact nomatch h
  · intro h
    obtain ⟨text, rfl⟩ := h
    rfl

theorem isPlainEntry_iff {entry : Text × Toml.Value} :
    IsPlainEntry entry ↔ ∀ key ∈ SettingKey.all,
      (Text.lowerAscii entry.1 = key.text → entry.2.string?.isSome = true) ∧
        ∀ name ∈ (KeyTarget.ofKey entry.1).reached?, Text.lowerAscii name ≠ key.text := by
  constructor
  · intro h key _
    exact ⟨fun hkey => Toml.Value.isSome_string?_iff.mpr (h.is_string key hkey),
      fun name hname => h.reaches_outside name hname key⟩
  · intro h
    constructor
    · exact fun key hkey => Toml.Value.isSome_string?_iff.mp ((h key key.mem_all).1 hkey)
    · exact fun name hname key => (h key key.mem_all).2 name hname

instance (entry : Text × Toml.Value) : Decidable (IsPlainEntry entry) :=
  decidable_of_iff _ isPlainEntry_iff.symm

/-- Two entries of which at most one has the key of a given setting, in whatever letter case. -/
def SpellApart (first second : Text × Toml.Value) : Prop :=
  ∀ key ∈ SettingKey.all, Text.lowerAscii first.1 = key.text →
    Text.lowerAscii second.1 ≠ key.text

instance : DecidableRel SpellApart :=
  fun first second => inferInstanceAs (Decidable (∀ key ∈ SettingKey.all,
    Text.lowerAscii first.1 = key.text → Text.lowerAscii second.1 ≠ key.text))

/-- Entries that bind settings to strings only, and each setting at most once. Where two spellings
of a setting stand in one file, the order of the entries does not say which of them counts. -/
structure ArePlainEntries (entries : List (Text × Toml.Value)) : Prop where
  each : ∀ entry ∈ entries, IsPlainEntry entry
  apart : entries.Pairwise SpellApart

theorem arePlainEntries_iff {entries : List (Text × Toml.Value)} :
    ArePlainEntries entries ↔
      (∀ entry ∈ entries, IsPlainEntry entry) ∧ entries.Pairwise SpellApart :=
  ⟨fun h => ⟨h.each, h.apart⟩, fun h => ⟨h.1, h.2⟩⟩

instance (entries : List (Text × Toml.Value)) : Decidable (ArePlainEntries entries) :=
  decidable_of_iff _ arePlainEntries_iff.symm

namespace Assignment

theorem addEntry_of_string (origin : Text) (values : Assignment) {name text : Text}
    {key : SettingKey} (h : Text.lowerAscii name = key.text) :
    values.addEntry origin (name, .scalar (.string text)) =
      values.withTexts (entryText? · (name, .scalar (.string text))) := by
  have hset : values.addEntry origin (name, .scalar (.string text)) =
      values.set key (.text text) := by
    unfold addEntry
    dsimp only
    rw [ofKey_eq_whole h]
    dsimp only
    rw [SettingKey.ofText?_eq_some_iff.mpr h]
    rfl
  rw [hset, set_text]
  congr 1
  funext other
  unfold entryText?
  rw [h]
  by_cases hother : other = key
  · subst hother
    rw [if_pos rfl, if_pos rfl]
    rfl
  · -- Different settings have different keys, so the other settings get nothing.
    rw [if_neg hother, if_neg fun htext => hother (SettingKey.text_injective htext.symm)]

/-- An entry whose key neither is the one of a setting nor reaches into a setting does nothing. -/
theorem addEntry_of_other (origin : Text) (values : Assignment) {name : Text} (value : Toml.Value)
    (hkey : ∀ key : SettingKey, Text.lowerAscii name ≠ key.text)
    (hreach : ∀ reached, (KeyTarget.ofKey name).reached? = some reached →
      ∀ key : SettingKey, Text.lowerAscii reached ≠ key.text) :
    values.addEntry origin (name, value) = values := by
  have hnone : ∀ {name : Text}, (∀ key : SettingKey, Text.lowerAscii name ≠ key.text) →
      SettingKey.ofText? (Text.lowerAscii name) = none := by
    intro name hname
    cases hfound : SettingKey.ofText? (Text.lowerAscii name) with
    | none => rfl
    | some key => exact absurd (SettingKey.ofText?_eq_some_iff.mp hfound) (hname key)
  unfold addEntry
  dsimp only
  cases htarget : KeyTarget.ofKey name with
  | whole same =>
      obtain rfl := eq_of_ofKey_eq_whole htarget
      simp only [hnone hkey]
  | member table =>
      rw [htarget] at hreach
      simp only [hnone (hreach table rfl)]
  | element array =>
      rw [htarget] at hreach
      simp only [hnone (hreach array rfl)]

/-- **A plain entry lays its text over the assignment.** -/
theorem addEntry_eq (origin : Text) (values : Assignment) {entry : Text × Toml.Value}
    (h : IsPlainEntry entry) :
    values.addEntry origin entry = values.withTexts (entryText? · entry) := by
  obtain ⟨name, value⟩ := entry
  -- Either the key is the one of a setting, or the entry binds nothing.
  by_cases hkey : ∃ key : SettingKey, Text.lowerAscii name = key.text
  · obtain ⟨key, hkey⟩ := hkey
    obtain ⟨text, rfl⟩ := h.is_string key hkey
    exact addEntry_of_string origin values hkey
  · have hkey : ∀ key : SettingKey, Text.lowerAscii name ≠ key.text :=
      fun key hname => hkey ⟨key, hname⟩
    rw [addEntry_of_other origin values value hkey h.reaches_outside]
    unfold entryText?
    simp only [hkey, if_false]
    exact (withTexts_none values).symm

theorem addEntries_eq (origin : Text) (values : Assignment) {entries : List (Text × Toml.Value)}
    (h : ArePlainEntries entries) :
    values.addEntries origin entries =
      values.withTexts fun key => lastBound (entryText? key) entries := by
  unfold addEntries
  rw [List.foldl_ext _ (fun values entry => values.withTexts (entryText? · entry)) values
    fun values entry hentry => addEntry_eq origin values (h.each entry hentry)]
  exact foldl_withTexts (fun entry key => entryText? key entry) entries values

end Assignment

/-! ## §4. Files. -/

section Files

variable (files : FileView) (workingDirectory : Path)

/-- The text that the file at a path binds a setting to: the one of its last entry for it. -/
def fileText? (key : SettingKey) (path : Path) : Option Text :=
  match SettingsFile.read files workingDirectory path with
  | .ok (_, entries) => lastBound (entryText? key) entries
  | .error _ => none

/-- A file that can be read and has plain entries only, or one that is not required and is missing
or unreadable. -/
inductive SettingsFile.IsSound : SettingsFile → Prop
  | plain {path : Path} {required : Bool} {origin : Text} {entries : List (Text × Toml.Value)}
      (hread : read files workingDirectory path = .ok (origin, entries))
      (hplain : ArePlainEntries entries) : IsSound ⟨path, required⟩
  | unreadable {path : Path} {error : SettingsError}
      (hread : read files workingDirectory path = .error error)
      (herror : error.isUnreadable = true) : IsSound ⟨path, false⟩

variable {files workingDirectory}

theorem SettingsFile.isSound_iff {file : SettingsFile} :
    IsSound files workingDirectory file ↔
      match read files workingDirectory file.path with
      | .ok (_, entries) => ArePlainEntries entries
      | .error error => error.isUnreadable = true ∧ file.required = false := by
  constructor
  · intro h
    cases h with
    | plain hread hplain =>
        dsimp only
        rw [hread]
        exact hplain
    | unreadable hread herror =>
        dsimp only
        rw [hread]
        exact ⟨herror, rfl⟩
  · intro h
    obtain ⟨path, required⟩ := file
    cases hread : read files workingDirectory path with
    | ok content =>
        rw [hread] at h
        exact .plain hread h
    | error error =>
        rw [hread] at h
        obtain ⟨herror, rfl⟩ := h
        exact .unreadable hread herror

instance (file : SettingsFile) :
    Decidable (SettingsFile.IsSound files workingDirectory file) :=
  match hread : SettingsFile.read files workingDirectory file.path with
  | .ok (_, entries) =>
    decidable_of_iff (ArePlainEntries entries)
      (by rw [SettingsFile.isSound_iff, hread])
  | .error error =>
    decidable_of_iff (error.isUnreadable = true ∧ file.required = false)
      (by rw [SettingsFile.isSound_iff, hread])

theorem SettingsFile.add_eq (values : Assignment) {file : SettingsFile}
    (h : IsSound files workingDirectory file) :
    add files workingDirectory values file =
      .ok (values.withTexts (fileText? files workingDirectory · file.path)) := by
  unfold add fileText?
  cases h with
  | plain hread hplain =>
      dsimp only
      rw [hread]
      dsimp only
      rw [Assignment.addEntries_eq _ values hplain]
  | unreadable hread herror =>
      dsimp only
      rw [hread]
      dsimp only
      rw [if_pos ⟨herror, Bool.false_ne_true⟩]
      rfl

/-- **Files lay their texts over the assignment**, and the last file counts. -/
theorem foldlM_add_eq {list : List SettingsFile}
    (h : ∀ file ∈ list, SettingsFile.IsSound files workingDirectory file) (values : Assignment) :
    list.foldlM (SettingsFile.add files workingDirectory) values =
      .ok (values.withTexts fun key =>
        lastBound (fun file => fileText? files workingDirectory key file.path) list) := by
  -- No file fails, so the monadic fold is the plain fold of their texts.
  rw [← Assignment.foldl_withTexts
    (fun (file : SettingsFile) key => fileText? files workingDirectory key file.path) list values]
  induction list generalizing values with
  | nil => rfl
  | cons file rest ih =>
      obtain ⟨hfile, hrest⟩ := List.forall_mem_cons.mp h
      rw [List.foldlM_cons, SettingsFile.add_eq values hfile]
      exact ih hrest _

end Files

/-! ## §5. Overrides. -/

/-- The text that an override binds a setting to. -/
def boundText? (key : SettingKey) : SettingKey × SettingValue → Option Text
  | (setting, .text text) => if key = setting then some text else none
  | _ => none

/-- **Overrides with texts lay them over the assignment**, and the last override counts. -/
theorem addOverrides_eq (values : Assignment) {overrides : List (SettingKey × SettingValue)}
    (h : ∀ one ∈ overrides, ∃ text, one.2 = .text text) :
    values.addOverrides overrides =
      values.withTexts fun key => lastBound (boundText? key) overrides := by
  unfold Assignment.addOverrides
  rw [List.foldl_ext _ (fun values one => values.withTexts (boundText? · one)) values]
  · exact Assignment.foldl_withTexts (fun one key => boundText? key one) overrides values
  · intro values one hone
    obtain ⟨setting, value⟩ := one
    obtain ⟨text, rfl⟩ := h _ hone
    exact values.set_text setting text

end YamlDocs
