/-
  YamlDocs.Proofs.Path.Normal
  ────────────────────────────────
  **A NORMALIZED PATH IS SPELLED BY ITS COMPONENTS.**

  What normalization keeps is, behind the root of an absolute path, a list of
  plain components: names and `..`, each spelled by one segment.  Writing
  them out with single slashes and reading the result gives the same
  components back (`components_normalize`).  So a normalized path has only
  one spelling: two of them with equal components are equal
  (`normalize_eq_of_components_eq`).
-/
import YamlDocs.Path.Normal

namespace YamlDocs

/-! ## §1. Plain components. -/

/-- No piece of a list cut at `a` holds an `a`. -/
theorem not_mem_of_mem_splitOn {α : Type} [DecidableEq α] {a : α} {xs : List α} :
    ∀ {piece : List α}, piece ∈ xs.splitOn a → a ∉ piece := by
  induction xs with
  | nil =>
      intro piece hpiece
      rw [List.splitOn_nil, List.mem_singleton] at hpiece
      rw [hpiece]
      exact List.not_mem_nil
  | cons x rest ih =>
      intro piece hpiece
      rw [List.splitOn_cons_eq_if_modifyHead] at hpiece
      split at hpiece
      case isTrue =>
        rcases List.mem_cons.mp hpiece with rfl | hpiece
        · exact List.not_mem_nil
        · exact ih hpiece
      case isFalse hx =>
        cases hsplit : rest.splitOn a with
        | nil => exact absurd hsplit (List.splitOn_ne_nil a rest)
        | cons head tail =>
            rw [hsplit] at hpiece ih
            rcases List.mem_cons.mp hpiece with rfl | hpiece
            · intro hmem
              rcases List.mem_cons.mp hmem with rfl | hmem
              · exact hx (beq_self_eq_true a)
              · exact ih List.mem_cons_self hmem
            · exact ih (List.mem_cons_of_mem head hpiece)

namespace Component

/-- A component that one segment spells: a name or `..`. -/
def Plain (component : Component) : Prop :=
  Path.segmentComponent? (Path.componentBytes component) = some component ∧
    Path.slash ∉ Path.componentBytes component

theorem not_plain_root : ¬ Plain .root := fun h => nomatch h.1

theorem not_plain_here : ¬ Plain .here := fun h => nomatch h.1

/-- What a segment stands for is plain. -/
theorem plain_of_segment {segment : Bytes} {component : Component}
    (hslash : Path.slash ∉ segment) (h : Path.segmentComponent? segment = some component) :
    Plain component := by
  have hbytes : Path.componentBytes component = segment := by
    unfold Path.segmentComponent? at h
    split at h
    case isTrue => exact nomatch h
    case isFalse =>
      split at h
      case isTrue hparent =>
        obtain rfl := Option.some.inj h
        exact hparent.symm
      case isFalse =>
        obtain rfl := Option.some.inj h
        rfl
  unfold Plain
  rw [hbytes]
  exact ⟨h, hslash⟩

theorem Plain.bytes_ne_nil {component : Component} (h : Plain component) :
    Path.componentBytes component ≠ [] := by
  intro hnil
  have hsome := h.1
  rw [hnil] at hsome
  exact nomatch hsome

theorem Plain.bytes_ne_dot {component : Component} (h : Plain component) :
    Path.componentBytes component ≠ [Path.dot] := by
  intro hdot
  have hsome := h.1
  rw [hdot] at hsome
  exact nomatch hsome

end Component

namespace Path

open Component (Plain)

/-! ## §2. What normalization keeps. -/

/-- The components of a path are plain, apart from its leading one. -/
theorem plain_of_mem_segments (path : Path) :
    ∀ component ∈ path.segments.filterMap segmentComponent?, Plain component := by
  intro component hcomponent
  obtain ⟨segment, hsegment, h⟩ := List.mem_filterMap.mp hcomponent
  exact Component.plain_of_segment (not_mem_of_mem_splitOn hsegment) h

/-- One plain component changes only the plain part of the stack. -/
theorem pushComponent_plain {base top : List Component} {component : Component}
    (hbase : base = [] ∨ base = [.root]) (htop : ∀ c ∈ top, Plain c) (hc : Plain component) :
    ∃ top', pushComponent (top ++ base) component = top' ++ base ∧ ∀ c ∈ top', Plain c := by
  cases component with
  | root => exact absurd hc Component.not_plain_root
  | here => exact absurd hc Component.not_plain_here
  | name bytes => exact ⟨.name bytes :: top, rfl, List.forall_mem_cons.mpr ⟨hc, htop⟩⟩
  | parent =>
      cases top with
      | nil =>
          rcases hbase with rfl | rfl
          · exact ⟨[.parent], rfl, List.forall_mem_singleton.mpr hc⟩
          · exact ⟨[], rfl, htop⟩
      | cons last below =>
          have hbelow := (List.forall_mem_cons.mp htop).2
          cases last with
          | root => exact absurd (htop _ List.mem_cons_self) Component.not_plain_root
          | here => exact absurd (htop _ List.mem_cons_self) Component.not_plain_here
          | name bytes => exact ⟨below, rfl, hbelow⟩
          | parent =>
              exact ⟨.parent :: .parent :: below, rfl, List.forall_mem_cons.mpr ⟨hc, htop⟩⟩

theorem foldl_pushComponent_plain {base : List Component} (hbase : base = [] ∨ base = [.root])
    (components : List Component) :
    ∀ top : List Component, (∀ c ∈ top, Plain c) → (∀ c ∈ components, Plain c) →
      ∃ top', components.foldl pushComponent (top ++ base) = top' ++ base ∧
        ∀ c ∈ top', Plain c := by
  induction components with
  | nil => intro top htop _; exact ⟨top, rfl, htop⟩
  | cons component rest ih =>
      intro top htop hall
      obtain ⟨hc, hrest⟩ := List.forall_mem_cons.mp hall
      obtain ⟨top', heq, htop'⟩ := pushComponent_plain hbase htop hc
      rw [List.foldl_cons, heq]
      exact ih top' htop' hrest

/-- **What normalization keeps of a path**: plain components, behind the root of an absolute
path. -/
theorem normalComponents_eq (path : Path) :
    ∃ rest, (∀ c ∈ rest, Plain c) ∧
      normalComponents path.components = (if path.isAbsolute then [.root] else []) ++ rest := by
  have hplain := plain_of_mem_segments path
  -- The leading component is the root, which stays below, or a dot, which vanishes.
  have hleading : path.leading.foldl pushComponent [] =
      if path.isAbsolute then [.root] else [] := by
    unfold leading
    split
    case isTrue => rfl
    case isFalse => split <;> rfl
  have hbase : (if path.isAbsolute then [.root] else []) = ([] : List Component) ∨
      (if path.isAbsolute then [.root] else []) = [Component.root] := by
    split
    case isTrue => exact Or.inr rfl
    case isFalse => exact Or.inl rfl
  obtain ⟨top, heq, htop⟩ :=
    foldl_pushComponent_plain hbase (path.segments.filterMap segmentComponent?) []
      (fun c hc => nomatch hc) hplain
  refine ⟨top.reverse, fun c hc => htop c (List.mem_reverse.mp hc), ?_⟩
  unfold normalComponents components
  rw [List.foldl_append, hleading]
  rw [List.nil_append] at heq
  rw [heq, List.reverse_append]
  split <;> rfl

/-! ## §3. Writing and reading back. -/

theorem filterMap_segmentComponent? {components : List Component}
    (h : ∀ c ∈ components, Plain c) :
    (components.map componentBytes).filterMap segmentComponent? = components := by
  induction components with
  | nil => rfl
  | cons component rest ih =>
      obtain ⟨hc, hrest⟩ := List.forall_mem_cons.mp h
      rw [List.map_cons, List.filterMap_cons_some hc.1, ih hrest]

theorem splitOn_spelling {components : List Component} (h : ∀ c ∈ components, Plain c)
    (hne : components ≠ []) :
    ([slash].intercalate (components.map componentBytes)).splitOn slash =
      components.map componentBytes := by
  refine List.splitOn_intercalate slash (fun segment hsegment => ?_) (by simpa using hne)
  obtain ⟨component, hcomponent, rfl⟩ := List.mem_map.mp hsegment
  exact (h component hcomponent).2

/-- An absolute path of plain components has these components. -/
theorem components_ofComponents_root {rest : List Component} (h : ∀ c ∈ rest, Plain c) :
    (ofComponents (.root :: rest)).components = .root :: rest := by
  have hsegments : (ofComponents (.root :: rest)).segments.filterMap segmentComponent? = rest := by
    show ((slash :: [slash].intercalate (rest.map componentBytes)).splitOn slash).filterMap _ = _
    rw [List.splitOn_cons_eq_if_modifyHead, if_pos (beq_self_eq_true slash)]
    cases rest with
    | nil => rfl
    | cons component rest =>
        rw [splitOn_spelling h (List.cons_ne_nil _ _)]
        exact filterMap_segmentComponent? h
  unfold components
  rw [hsegments]
  rfl

/-- The first segment of an absolute path is empty. -/
theorem segments_of_isAbsolute {path : Path} (h : path.isAbsolute = true) :
    ∃ rest, path.segments = [] :: rest := by
  obtain ⟨bytes⟩ := path
  cases bytes with
  | nil => exact nomatch h
  | cons first rest =>
      have hfirst : some first = some slash := beq_iff_eq.mp h
      refine ⟨rest.splitOn slash, ?_⟩
      show (first :: rest).splitOn slash = _
      rw [Option.some.inj hfirst, List.splitOn_cons_eq_if_modifyHead,
        if_pos (beq_self_eq_true slash)]

/-- A relative path of plain components has these components. -/
theorem components_ofComponents_plain {components : List Component}
    (h : ∀ c ∈ components, Plain c) (hne : components ≠ []) :
    (ofComponents components).components = components := by
  obtain ⟨first, rest, rfl⟩ := List.exists_cons_of_ne_nil hne
  have hfirst : Plain first := h first List.mem_cons_self
  have hspelling : ofComponents (first :: rest) =
      ⟨[slash].intercalate ((first :: rest).map componentBytes)⟩ := by
    cases first with
    | root => exact absurd hfirst Component.not_plain_root
    | here => rfl
    | parent => rfl
    | name bytes => rfl
  have hsegments : (ofComponents (first :: rest)).segments =
      (first :: rest).map componentBytes := by
    rw [hspelling]
    exact splitOn_spelling h hne
  have hrelative : (ofComponents (first :: rest)).isAbsolute = false := by
    rw [Bool.eq_false_iff]
    intro habsolute
    obtain ⟨others, hothers⟩ := segments_of_isAbsolute habsolute
    rw [hsegments] at hothers
    exact hfirst.bytes_ne_nil (List.cons.inj hothers).1
  have hleading : (ofComponents (first :: rest)).leading = [] := by
    unfold leading
    rw [hrelative, hsegments, if_neg Bool.false_ne_true, if_neg]
    intro hdot
    exact hfirst.bytes_ne_dot (Option.some.inj hdot)
  unfold Path.components
  rw [hleading, hsegments, filterMap_segmentComponent? h]
  rfl

/-! ## §4. Normalized paths. -/

/-- **A normalized path has the components that normalization kept**, or a single dot if there are
none. -/
theorem components_normalize (path : Path) :
    path.normalize.components =
      if normalComponents path.components = [] then [.here]
      else normalComponents path.components := by
  obtain ⟨rest, hplain, heq⟩ := normalComponents_eq path
  unfold normalize
  rw [heq]
  cases hroot : path.isAbsolute with
  | true =>
      show (ofComponents (.root :: rest)).components = _
      rw [components_ofComponents_root hplain]
      rfl
  | false =>
      show (ofNormalComponents rest).components = if rest = [] then _ else rest
      cases rest with
      | nil => rfl
      | cons component rest =>
          rw [if_neg (List.cons_ne_nil _ _)]
          exact components_ofComponents_plain hplain (List.cons_ne_nil _ _)

/-- A normalized absolute path has just the components that normalization kept. -/
theorem components_normalize_of_isAbsolute {path : Path} (h : path.isAbsolute = true) :
    path.normalize.components = normalComponents path.components := by
  obtain ⟨rest, -, heq⟩ := normalComponents_eq path
  rw [components_normalize, if_neg]
  rw [heq, if_pos h]
  exact List.cons_ne_nil _ _

theorem here_notMem_normalComponents (path : Path) :
    .here ∉ normalComponents path.components := by
  obtain ⟨rest, hplain, heq⟩ := normalComponents_eq path
  rw [heq, List.mem_append]
  intro h
  rcases h with hroot | hrest
  · split at hroot
    case isTrue => exact absurd (List.mem_singleton.mp hroot) nofun
    case isFalse => exact nomatch hroot
  · exact Component.not_plain_here (hplain _ hrest)

/-- **A normalized path has one spelling**: with equal components two of them are equal. -/
theorem normalize_eq_of_components_eq {p q : Path}
    (h : p.normalize.components = q.normalize.components) : p.normalize = q.normalize := by
  have hp := here_notMem_normalComponents p
  have hq := here_notMem_normalComponents q
  rw [components_normalize, components_normalize] at h
  have heq : normalComponents p.components = normalComponents q.components := by
    split at h <;> split at h
    case isTrue.isTrue hnil hnil' => rw [hnil, hnil']
    case isTrue.isFalse => exact absurd (h ▸ List.mem_singleton_self _) hq
    case isFalse.isTrue => exact absurd (h ▸ List.mem_singleton_self _) hp
    case isFalse.isFalse => exact h
  unfold normalize
  rw [heq]

end Path

end YamlDocs
