/-
  YamlDocs.Proofs.Path.Form
  ────────────────────────────────
  **THE FORM OF NORMALIZED PATHS.**

  A normalized path is spelled in one of three ways (`spelling`):

      /NAME/…/NAME          the root and names, perhaps none
      ../…/../NAME/…/NAME   as many `..` as remain, then names
      .                     nothing

  Which `..` and names these are is said by cancelling alone
  (`normalize_spelled`).  From the spelling one reads off that a dot stands
  alone, that no `..` stands behind a name or the root, and that only the lone
  root ends in a slash.
-/
import YamlDocs.Proofs.Path.Canonical

namespace YamlDocs.Path

/-! ## §1. The three spellings. -/

/-- The plainest spelling of `..` some times and names, behind the root or without one; a dot
where that is nothing. -/
def spelling (absolute : Bool) (steps : Nat) (names : List Bytes) : Bytes :=
  if absolute then slash :: [slash].intercalate names
  else if steps = 0 ∧ names = [] then [dot]
  else [slash].intercalate (List.replicate steps [dot, dot] ++ names)

theorem map_componentBytes_climb (steps : Nat) (names : List Bytes) :
    (climb steps names).map componentBytes = List.replicate steps [dot, dot] ++ names := by
  unfold climb
  rw [List.map_append, List.map_replicate, map_componentBytes_names]
  rfl

/-- A list of `..` and names is spelled so. -/
theorem ofNormalComponents_climb (steps : Nat) (names : List Bytes) :
    ofNormalComponents (climb steps names) = ⟨spelling false steps names⟩ := by
  unfold spelling
  rw [if_neg Bool.false_ne_true, ← map_componentBytes_climb]
  cases steps with
  | succ steps => rfl
  | zero => cases names <;> rfl

/-- **How a normalized path is spelled**: by the `..` and names that cancelling leaves of the inner
components, the names alone behind the root. -/
theorem normalize_spelled (path : Path) :
    ∃ steps names, (∀ name ∈ names, IsName name) ∧
      Relation.ReflTransGen CancelStep path.inner (climb steps names) ∧
      path.normalize = ⟨spelling path.isAbsolute steps names⟩ := by
  obtain ⟨steps, names, hnames, hinner⟩ := exists_climb path
  refine ⟨steps, names, hnames, hinner ▸ cancels_normalComponents_inner path, ?_⟩
  unfold normalize
  rw [normalComponents_components hinner]
  cases path.isAbsolute with
  | true => exact ofComponents_names names
  | false => exact ofNormalComponents_climb steps names

example : (ofText "a/../../b/./c/".toList).normalize = ofText "../b/c".toList := by decide

/-! ## §2. Reading a normalized path. -/

/-- **A dot stands alone.** -/
theorem normalize_eq_dot_of_here_mem {path : Path} (h : .here ∈ path.normalize.components) :
    path.normalize = ⟨[dot]⟩ := by
  rw [components_normalize] at h
  split at h
  case isTrue hnil =>
    unfold normalize
    rw [hnil]
    rfl
  case isFalse => exact absurd h (here_notMem_normalComponents path)

/-- **What stands in front of a `..` is a `..`**, and no name and no root. -/
theorem parents_first_normalize (path : Path) :
    path.normalize.components.Pairwise fun before after => after = .parent → before = .parent := by
  -- Among names there is no `..` to ask about.
  have hnames : ∀ names : List Bytes, (names.map Component.name).Pairwise
      fun before after => after = .parent → before = .parent := by
    intro names
    refine List.pairwise_map.mpr (List.pairwise_of_forall fun _ _ hparent => ?_)
    exact nomatch hparent
  obtain ⟨steps, names, -, hinner⟩ := exists_climb path
  rw [components_normalize]
  split
  case isTrue => exact List.pairwise_singleton _ _
  case isFalse =>
    rw [normalComponents_components hinner]
    split
    case isTrue =>
      refine List.pairwise_cons.mpr ⟨fun c hc hparent => ?_, hnames names⟩
      obtain ⟨name, -, rfl⟩ := List.mem_map.mp hc
      exact nomatch hparent
    case isFalse =>
      refine List.pairwise_append.mpr ⟨?_, hnames names, ?_⟩
      · exact List.pairwise_replicate.mpr (Or.inr fun _ => rfl)
      · intro before hbefore _ _ _
        exact List.eq_of_mem_replicate hbefore

/-- The last piece between slashes decides whether there is a slash at the end. -/
theorem getLast?_intercalate_ne_slash {pieces : List Bytes}
    (h : ∀ piece ∈ pieces, piece ≠ [] ∧ slash ∉ piece) :
    ([slash].intercalate pieces).getLast? ≠ some slash := by
  induction pieces with
  | nil => exact nofun
  | cons piece rest ih =>
      obtain ⟨hpiece, hrest⟩ := List.forall_mem_cons.mp h
      cases rest with
      | nil =>
          intro hlast
          rw [List.intercalate_singleton] at hlast
          exact hpiece.2 (List.mem_of_getLast? hlast)
      | cons next rest =>
          have hnext : [slash].intercalate (next :: rest) ≠ [] := by
            have hne := (hrest next List.mem_cons_self).1
            cases rest with
            | nil => rwa [List.intercalate_singleton]
            | cons other rest => simp [List.intercalate_cons_cons, hne]
          rw [List.intercalate_cons_cons, List.getLast?_append_of_ne_nil _ hnext]
          exact ih hrest

/-- **No slash stands at the end** but that of the lone root. -/
theorem spelling_eq_root_of_getLast? {absolute : Bool} {steps : Nat} {names : List Bytes}
    (hnames : ∀ name ∈ names, IsName name)
    (hlast : (spelling absolute steps names).getLast? = some slash) :
    spelling absolute steps names = [slash] := by
  have hpieces : ∀ name ∈ names, name ≠ [] ∧ slash ∉ name :=
    fun name hname => ⟨(hnames name hname).1, (hnames name hname).2.2.2⟩
  unfold spelling at hlast ⊢
  split at hlast
  case isTrue habsolute =>
    rw [if_pos habsolute]
    by_cases hempty : [slash].intercalate names = []
    · rw [hempty]
    · have htail : (slash :: [slash].intercalate names).getLast? =
          ([slash].intercalate names).getLast? :=
        List.getLast?_append_of_ne_nil [slash] hempty
      exact absurd (htail.symm.trans hlast) (getLast?_intercalate_ne_slash hpieces)
  case isFalse =>
    split at hlast
    case isTrue => exact absurd hlast (by decide)
    case isFalse =>
      refine absurd hlast (getLast?_intercalate_ne_slash fun piece hpiece => ?_)
      rcases List.mem_append.mp hpiece with hparent | hname
      · rw [List.eq_of_mem_replicate hparent]
        decide
      · exact hpieces piece hname

theorem normalize_eq_root_of_getLast? {path : Path}
    (hlast : path.normalize.bytes.getLast? = some slash) : path.normalize = ⟨[slash]⟩ := by
  obtain ⟨steps, names, hnames, -, hspelled⟩ := normalize_spelled path
  rw [hspelled] at hlast ⊢
  exact congrArg Path.mk (spelling_eq_root_of_getLast? hnames hlast)

/-! ## §3. The names that are kept. -/

theorem filter_isName_components (path : Path) :
    path.components.filter Component.isName = path.inner.filter Component.isName := by
  have hleading : path.leading.filter Component.isName = [] := by
    rw [List.filter_eq_nil_iff]
    intro c hc
    rcases mem_leading hc with rfl | rfl <;> simp [Component.isName]
  show (path.leading ++ path.inner).filter Component.isName = _
  rw [List.filter_append, hleading, List.nil_append]

/-- **The names of a normalized path are some of the names of the path**, in their order. -/
theorem names_normalize_sublist (path : Path) :
    (path.normalize.components.filter Component.isName).Sublist
      (path.components.filter Component.isName) := by
  have hinner := (sublist_of_cancels (cancels_normalComponents_inner path)).filter Component.isName
  obtain ⟨steps, names, -, hclimb⟩ := exists_climb path
  rw [components_normalize, filter_isName_components path]
  split
  case isTrue => exact List.nil_sublist _
  case isFalse =>
    refine List.Sublist.trans ?_ hinner
    rw [normalComponents_components hclimb, hclimb]
    split
    case isTrue =>
      show ((names.map Component.name).filter Component.isName).Sublist _
      exact (List.sublist_append_right _ _).filter Component.isName
    case isFalse => exact .refl _

end YamlDocs.Path
