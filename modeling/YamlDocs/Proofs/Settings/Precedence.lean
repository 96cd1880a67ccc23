/-
  YamlDocs.Proofs.Settings.Precedence
  ────────────────────────────────
  **OVERRIDES ABOVE FILES ABOVE DEFAULTS.**

  `mergedText` looks up a setting in layers: the last override for it counts,
  else the last file that binds it, else the default.  Layers that bind
  settings to nothing but strings load exactly these texts, and the only
  thing that can be wrong with them is an empty marker (`load_precedence`).
-/
import YamlDocs.Proofs.Settings.Binding

namespace YamlDocs

/-! ## §1. Layers. -/

namespace Layer

/-- Whether a layer is an override. -/
def isOverride : Layer → Bool
  | .override _ _ => true
  | _ => false

/-- The text that a layer overrides a setting with. -/
def overridden? (key : SettingKey) : Layer → Option Text
  | .override name (.text text) => if name = key.text then some text else none
  | _ => none

section Files

variable (files : FileView) (workingDirectory : Path)

/-- The text that the file of a layer binds a setting to. -/
def configured? (key : SettingKey) : Layer → Option Text
  | .file path => fileText? files workingDirectory key path
  | .optionalFile path => fileText? files workingDirectory key path
  | .override _ _ => none

/-- A layer that binds settings to nothing but strings: an override of a setting with a text, or a
file with plain entries, which may be missing if it is optional. -/
inductive IsSound : Layer → Prop
  | override (key : SettingKey) (text : Text) : IsSound (.override key.text (.text text))
  | file {path : Path} (h : SettingsFile.IsSound files workingDirectory ⟨path, true⟩) :
      IsSound (.file path)
  | optionalFile {path : Path} (h : SettingsFile.IsSound files workingDirectory ⟨path, false⟩) :
      IsSound (.optionalFile path)

end Files

/-- The file of a layer. -/
def file? : Layer → Option SettingsFile
  | .file path => some ⟨path, true⟩
  | .optionalFile path => some ⟨path, false⟩
  | .override _ _ => none

/-- The override of a layer. -/
def override? : Layer → Option (SettingKey × SettingValue)
  | .override name value => (SettingKey.ofText? name).map (·, value)
  | _ => none

end Layer

/-- The text that layers give a setting: the one of the last override for it, else the one of the
last file that binds it, else the default. -/
def mergedText (files : FileView) (workingDirectory : Path) (layers : List Layer)
    (key : SettingKey) : Text :=
  ((lastBound (Layer.overridden? key) layers).or
    (lastBound (Layer.configured? files workingDirectory key) layers)).getD (Settings.default.get key)

section Merge

variable {files : FileView} {workingDirectory : Path} {layers : List Layer}

/-- A sound layer adds its file or its override to the sources. -/
theorem Sources.add_eq (sources : Sources) {layer : Layer}
    (h : layer.IsSound files workingDirectory) :
    sources.add layer = .ok
      ⟨sources.files ++ layer.file?.toList, sources.overrides ++ layer.override?.toList⟩ := by
  cases h with
  | override key text =>
      have hkey : SettingKey.ofText? key.text = some key := SettingKey.ofText?_eq_some_iff.mpr rfl
      unfold add override Layer.file? Layer.override?
      dsimp only
      rw [hkey]
      simp [Except.map]
  | file => simp [add, Layer.file?, Layer.override?]
  | optionalFile => simp [add, Layer.file?, Layer.override?]

/-- **Sound layers give their files and their overrides**, each in their order. -/
theorem Sources.ofLayers_eq (h : ∀ layer ∈ layers, layer.IsSound files workingDirectory) :
    Sources.ofLayers layers =
      .ok ⟨layers.filterMap Layer.file?, layers.filterMap Layer.override?⟩ := by
  suffices hall : ∀ sources : Sources, layers.foldlM Sources.add sources = .ok
      ⟨sources.files ++ layers.filterMap Layer.file?,
        sources.overrides ++ layers.filterMap Layer.override?⟩ from hall {}
  induction layers with
  | nil => intro sources; simp [pure, Except.pure]
  | cons layer rest ih =>
      intro sources
      obtain ⟨hlayer, hrest⟩ := List.forall_mem_cons.mp h
      -- The part of the first layer stands in front, in both lists.
      have hcons : ∀ {α : Type} (part? : Layer → Option α),
          (layer :: rest).filterMap part? = (part? layer).toList ++ rest.filterMap part? := by
        intro α part?
        cases hpart : part? layer <;> simp [hpart]
      rw [List.foldlM_cons, Sources.add_eq sources hlayer, hcons, hcons, ← List.append_assoc,
        ← List.append_assoc]
      exact ih hrest _

/-- The files of sound layers are sound. -/
theorem isSound_of_mem_files (h : ∀ layer ∈ layers, layer.IsSound files workingDirectory) :
    ∀ file ∈ layers.filterMap Layer.file?, SettingsFile.IsSound files workingDirectory file := by
  intro file hfile
  obtain ⟨layer, hlayer, hpart⟩ := List.mem_filterMap.mp hfile
  cases h layer hlayer with
  | override key text => exact nomatch hpart
  | file hsound =>
      obtain rfl := Option.some.inj hpart
      exact hsound
  | optionalFile hsound =>
      obtain rfl := Option.some.inj hpart
      exact hsound

/-- The overrides of sound layers hold texts. -/
theorem exists_text_of_mem_overrides
    (h : ∀ layer ∈ layers, layer.IsSound files workingDirectory) :
    ∀ one ∈ layers.filterMap Layer.override?, ∃ text, one.2 = .text text := by
  intro one hone
  obtain ⟨layer, hlayer, hpart⟩ := List.mem_filterMap.mp hone
  cases h layer hlayer with
  | override key text =>
      obtain ⟨setting, -, rfl⟩ := Option.map_eq_some_iff.mp hpart
      exact ⟨text, rfl⟩
  | file => exact nomatch hpart
  | optionalFile => exact nomatch hpart

/-- What the override of a layer binds is what the layer overrides. -/
theorem override?_bind_boundText? (layer : Layer) (key : SettingKey) :
    (layer.override?).bind (boundText? key) = layer.overridden? key := by
  cases layer with
  | file => rfl
  | optionalFile => rfl
  | override name value =>
      unfold Layer.override? Layer.overridden?
      cases hname : SettingKey.ofText? name with
      | none =>
          have hne : name ≠ key.text := by
            rintro rfl
            rw [SettingKey.ofText?_eq_some_iff.mpr rfl] at hname
            exact nomatch hname
          cases value <;> simp [hname, hne]
      | some setting =>
          obtain rfl := SettingKey.ofText?_eq_some_iff.mp hname
          have hiff : setting.text = key.text ↔ key = setting :=
            ⟨fun h => SettingKey.text_injective h.symm, fun h => congrArg SettingKey.text h.symm⟩
          cases value <;> simp [hname, boundText?, hiff]

theorem file?_bind_fileText? (layer : Layer) (key : SettingKey) :
    (layer.file?).bind (fun file => fileText? files workingDirectory key file.path) =
      layer.configured? files workingDirectory key := by
  cases layer <;> rfl

/-- **The merged value of every setting is its merged text.** -/
theorem Sources.merge_eq (h : ∀ layer ∈ layers, layer.IsSound files workingDirectory) :
    merge files workingDirectory ⟨layers.filterMap Layer.file?, layers.filterMap Layer.override?⟩ =
      .ok fun key => .text (mergedText files workingDirectory layers key) := by
  unfold merge
  rw [foldlM_add_eq (isSound_of_mem_files h)]
  dsimp only [Except.map]
  rw [addOverrides_eq _ (exists_text_of_mem_overrides h), Assignment.withTexts_withTexts,
    Assignment.default_withTexts]
  simp only [lastBound_filterMap, override?_bind_boundText?, file?_bind_fileText?]
  rfl

/-- Loading sound layers is a matter of their merged texts. -/
theorem Settings.load_eq (h : ∀ layer ∈ layers, layer.IsSound files workingDirectory) :
    Settings.load files workingDirectory layers =
      Assignment.settings fun key => .text (mergedText files workingDirectory layers key) := by
  unfold load
  rw [Sources.ofLayers_eq h]
  dsimp only
  unfold Sources.load
  rw [Sources.merge_eq h]

end Merge

/-! ## §2. Settings of texts. -/

/-- Settings are determined by the texts under their keys. -/
theorem Settings.eq_of_get_eq {settings other : Settings}
    (h : ∀ key, settings.get key = other.get key) : settings = other := by
  obtain ⟨root, markers⟩ := settings
  obtain ⟨root', markers'⟩ := other
  have hroot : root = root' := h .root
  have hdelimiter : markers.docDelimiter = markers'.docDelimiter := h (.marker .docDelimiter)
  have hparameter : markers.docParameter = markers'.docParameter := h (.marker .docParameter)
  have hcomment : markers.comment = markers'.comment := h (.marker .comment)
  cases markers
  cases markers'
  simp only at hroot hdelimiter hparameter hcomment
  subst hroot hdelimiter hparameter hcomment
  rfl

/-- The first marker that texts leave empty. -/
def firstEmpty? (texts : SettingKey → Text) : Option MarkerName :=
  [MarkerName.docDelimiter, .docParameter, .comment].find? fun name => texts (.marker name) = []

/-- The marker set with the markers of texts. -/
def markersOf (texts : SettingKey → Text) : Except MarkerError MarkerSet :=
  MarkerSet.ofTexts (texts (.marker .docDelimiter)) (texts (.marker .docParameter))
    (texts (.marker .comment))

section Texts

variable {texts : SettingKey → Text}

/-- The first empty marker is refused; without one, there is a marker set. -/
theorem markersOf_cases (texts : SettingKey → Text) :
    (∃ name, firstEmpty? texts = some name ∧ markersOf texts = .error (.empty name)) ∨
    (∃ markers, firstEmpty? texts = none ∧ markersOf texts = .ok markers ∧
      ∀ name, markers.get name = texts (.marker name)) := by
  unfold firstEmpty? markersOf MarkerSet.ofTexts
  by_cases hd : texts (.marker .docDelimiter) = []
  · exact Or.inl ⟨.docDelimiter, by simp [hd], by simp [hd]⟩
  by_cases hp : texts (.marker .docParameter) = []
  · exact Or.inl ⟨.docParameter, by simp [hd, hp], by simp [hd, hp]⟩
  by_cases hc : texts (.marker .comment) = []
  · exact Or.inl ⟨.comment, by simp [hd, hp, hc], by simp [hd, hp, hc]⟩
  refine Or.inr ⟨⟨_, _, _, hd, hp, hc⟩, by simp [hd, hp, hc], by simp [hd, hp, hc], ?_⟩
  intro name
  cases name <;> rfl

theorem settings_of_texts (texts : SettingKey → Text) :
    (Assignment.settings fun key => .text (texts key)) =
      match markersOf texts with
      | .ok markers => .ok { root := texts .root, markers }
      | .error error => .error (.marker error) := rfl

/-- **What can be wrong with settings of texts is an empty marker**; the first one is reported. -/
theorem settings_eq_error_iff {error : SettingsError} :
    (Assignment.settings fun key => .text (texts key)) = .error error ↔
      ∃ name, firstEmpty? texts = some name ∧ error = .marker (.empty name) := by
  rw [settings_of_texts]
  rcases markersOf_cases texts with ⟨name, hfirst, hmarkers⟩ | ⟨markers, hfirst, hmarkers, -⟩
  · rw [hmarkers, hfirst]
    simp [eq_comm]
  · rw [hmarkers, hfirst]
    simp

/-- **Settings of texts without empty markers are these texts.** -/
theorem settings_eq_ok_iff {settings : Settings} :
    (Assignment.settings fun key => .text (texts key)) = .ok settings ↔
      firstEmpty? texts = none ∧ ∀ key, settings.get key = texts key := by
  rw [settings_of_texts]
  rcases markersOf_cases texts with ⟨name, hfirst, hmarkers⟩ | ⟨markers, hfirst, hmarkers, hget⟩
  · rw [hmarkers, hfirst]
    simp
  · have hloaded : ∀ key, ({ root := texts .root, markers } : Settings).get key = texts key := by
      intro key
      cases key with
      | root => rfl
      | marker name => exact hget name
    rw [hmarkers, hfirst]
    constructor
    · intro h
      obtain rfl := Except.ok.inj h
      exact ⟨rfl, hloaded⟩
    · intro h
      obtain ⟨-, h⟩ := h
      exact congrArg _ (Settings.eq_of_get_eq fun key => (hloaded key).trans (h key).symm)

/-- Settings that are loaded from texts give a marker set again, and it is theirs. -/
theorem markersOf_eq_of_settings {settings : Settings}
    (h : (Assignment.settings fun key => .text (texts key)) = .ok settings) :
    markersOf texts = .ok settings.markers := by
  rw [settings_of_texts] at h
  cases hmarkers : markersOf texts with
  | error error =>
      rw [hmarkers] at h
      exact nomatch h
  | ok markers =>
      rw [hmarkers] at h
      obtain rfl := Except.ok.inj h
      rfl

end Texts

/-! ## §3. Loading. -/

section Independence

variable {files : FileView} {workingDirectory : Path} {layers other : List Layer}

theorem overridden?_of_not_isOverride {layer : Layer} (h : layer.isOverride = false)
    (key : SettingKey) : layer.overridden? key = none := by
  cases layer with
  | override => exact nomatch h
  | file => rfl
  | optionalFile => rfl

/-- What is bound by some of the items is bound by these alone. -/
theorem lastBound_filter {α β : Type} {bound? : α → Option β} {p : α → Bool}
    (h : ∀ item, p item = false → bound? item = none) (items : List α) :
    lastBound bound? (items.filter p) = lastBound bound? items := by
  unfold lastBound
  rw [List.filterMap_filter]
  refine congrArg _ (List.filterMap_congr fun item _ => ?_)
  cases hp : p item with
  | true => rfl
  | false => exact (h item hp).symm

/-- **How overrides stand among files makes no difference.** -/
theorem mergedText_congr
    (hoverrides : other.filter Layer.isOverride = layers.filter Layer.isOverride)
    (hfiles : other.filter (!·.isOverride) = layers.filter (!·.isOverride)) :
    mergedText files workingDirectory other = mergedText files workingDirectory layers := by
  funext key
  have hover : ∀ layer : Layer, layer.isOverride = false → layer.overridden? key = none :=
    fun layer h => overridden?_of_not_isOverride h key
  have hfile : ∀ layer : Layer, (!layer.isOverride) = false →
      layer.configured? files workingDirectory key = none := by
    intro layer h
    cases layer with
    | override => rfl
    | file => exact nomatch h
    | optionalFile => exact nomatch h
  unfold mergedText
  rw [← lastBound_filter hover other, ← lastBound_filter hfile other, hoverrides, hfiles,
    lastBound_filter hover, lastBound_filter hfile]

/-- Layers that are overrides and files of sound layers are sound. -/
theorem isSound_of_filter_eq (h : ∀ layer ∈ layers, layer.IsSound files workingDirectory)
    (hoverrides : other.filter Layer.isOverride = layers.filter Layer.isOverride)
    (hfiles : other.filter (!·.isOverride) = layers.filter (!·.isOverride)) :
    ∀ layer ∈ other, layer.IsSound files workingDirectory := by
  intro layer hlayer
  -- Every layer is in one of the two filtered lists, whichever order they come from.
  refine h layer ?_
  cases hover : layer.isOverride with
  | true =>
      have hmem : layer ∈ other.filter Layer.isOverride := List.mem_filter.mpr ⟨hlayer, hover⟩
      rw [hoverrides] at hmem
      exact List.mem_of_mem_filter hmem
  | false =>
      have hmem : layer ∈ other.filter (!·.isOverride) :=
        List.mem_filter.mpr ⟨hlayer, by simp [hover]⟩
      rw [hfiles] at hmem
      exact List.mem_of_mem_filter hmem

end Independence

/-- **Overrides stand above files and files above the defaults.** Let the layers bind settings to
nothing but strings. Then every setting is merged to its merged text. Loading fails exactly if one
of the markers among these texts is empty, and reports the first one; otherwise it gives exactly
these texts, with a marker set and an environment. Neither the place of overrides among files nor
what is bound to other settings, in other files, makes a difference to a setting. -/
theorem load_precedence (files : FileView) (workingDirectory : Path) (layers : List Layer)
    (hsound : ∀ layer ∈ layers, layer.IsSound files workingDirectory) :
    (∃ sources, Sources.ofLayers layers = .ok sources ∧
      sources.merge files workingDirectory =
        .ok fun key => .text (mergedText files workingDirectory layers key)) ∧
    (∀ error, Settings.load files workingDirectory layers = .error error ↔
      ∃ name, firstEmpty? (mergedText files workingDirectory layers) = some name ∧
        error = .marker (.empty name)) ∧
    (∀ settings, Settings.load files workingDirectory layers = .ok settings ↔
      firstEmpty? (mergedText files workingDirectory layers) = none ∧
        ∀ key, settings.get key = mergedText files workingDirectory layers key) ∧
    (∀ settings, Settings.load files workingDirectory layers = .ok settings →
      markersOf settings.get = .ok settings.markers ∧
        ∀ directory source, settings.environment directory source =
          { workingDirectory := directory, sourceDirectory := source,
            root := mergedText files workingDirectory layers .root,
            markers := settings.markers }) ∧
    (∀ other, other.filter Layer.isOverride = layers.filter Layer.isOverride →
      other.filter (!·.isOverride) = layers.filter (!·.isOverride) →
        Settings.load files workingDirectory other =
          Settings.load files workingDirectory layers) ∧
    ∀ key otherFiles other, (∀ layer ∈ other, layer.IsSound otherFiles workingDirectory) →
      other.filterMap (Layer.overridden? key) = layers.filterMap (Layer.overridden? key) →
      other.filterMap (Layer.configured? otherFiles workingDirectory key) =
        layers.filterMap (Layer.configured? files workingDirectory key) →
        ∃ sources values, Sources.ofLayers other = .ok sources ∧
          sources.merge otherFiles workingDirectory = .ok values ∧
          values key = .text (mergedText files workingDirectory layers key) := by
  have hload := Settings.load_eq hsound
  refine ⟨⟨_, Sources.ofLayers_eq hsound, Sources.merge_eq hsound⟩, ?_, ?_, ?_, ?_, ?_⟩
  · intro error
    rw [hload]
    exact settings_eq_error_iff
  · intro settings
    rw [hload]
    exact settings_eq_ok_iff
  · intro settings hsettings
    rw [hload] at hsettings
    obtain ⟨-, hget⟩ := settings_eq_ok_iff.mp hsettings
    have hsame : settings.get = mergedText files workingDirectory layers := funext hget
    refine ⟨?_, fun directory source => ?_⟩
    · rw [hsame]
      exact markersOf_eq_of_settings hsettings
    · rw [← hget .root]
      rfl
  · intro other hoverrides hfiles
    rw [hload, Settings.load_eq (isSound_of_filter_eq hsound hoverrides hfiles),
      mergedText_congr hoverrides hfiles]
  · intro key otherFiles other hother hoverrides hfiles
    refine ⟨_, _, Sources.ofLayers_eq hother, Sources.merge_eq hother, ?_⟩
    unfold mergedText lastBound
    rw [hoverrides, hfiles]

/-! ## §4. Two files between two overrides. -/

/-- A root in a file of its own, and another one in capital letters beside a marker. -/
def twoFiles : FileView := fun path =>
  if path = .ofText "/a.toml".toList then .ok (Utf8.encode "autoyaml_root = 'a'".toList)
  else if path = .ofText "/b.toml".toList then
    .ok (Utf8.encode "AUTOYAML_ROOT = 'b'\nautoyaml_comment = '-'\nother = 1".toList)
  else .error .missing

/-- The two files with a missing one and two overrides of one marker among them. -/
def sampleLayers : List Layer :=
  [.override (SettingKey.marker .comment).text (.text ";".toList),
    .file (.ofText "a.toml".toList), .optionalFile (.ofText "c.toml".toList),
    .override (SettingKey.marker .comment).text (.text "//".toList),
    .file (.ofText "b.toml".toList)]

/-- The root of the second file, the marker of the second override, and two defaults. -/
def sampleSettings : Settings where
  root := ['b']
  markers := { MarkerSet.default with comment := "//".toList, comment_ne_nil := by decide }

/-- The last file and the last override count, and the overrides may as well stand behind the
files. -/
theorem load_precedence_sample :
    (∀ layer ∈ sampleLayers, layer.IsSound twoFiles (.ofText "/".toList)) ∧
    Settings.load twoFiles (.ofText "/".toList) sampleLayers = .ok sampleSettings ∧
    Settings.load twoFiles (.ofText "/".toList)
      (sampleLayers.filter (!·.isOverride) ++ sampleLayers.filter Layer.isOverride) =
        .ok sampleSettings := by
  have hsound : ∀ layer ∈ sampleLayers, layer.IsSound twoFiles (.ofText "/".toList) := by
    unfold sampleLayers
    simp only [List.forall_mem_cons]
    exact ⟨.override (.marker .comment) _, .file (by decide +kernel),
      .optionalFile (by decide +kernel), .override (.marker .comment) _,
      .file (by decide +kernel), fun layer hlayer => nomatch hlayer⟩
  have htexts : ∀ key ∈ SettingKey.all, sampleSettings.get key =
      mergedText twoFiles (.ofText "/".toList) sampleLayers key := by decide +kernel
  obtain ⟨-, -, hloads, -, hplace, -⟩ := load_precedence _ _ _ hsound
  have hload := (hloads sampleSettings).mpr
    ⟨by decide +kernel, fun key => htexts key key.mem_all⟩
  exact ⟨hsound, hload, (hplace _ rfl rfl).trans hload⟩

end YamlDocs
