/-
  YamlDocs.Proofs.Files.Write
  ────────────────────────────────
  **WRITING A FILE CHANGES ONE LOCATION.**

  A file is put into a directory that is there, under a name that is free or
  a file's.  Then this location shows the new file and every other one shows
  what it did before (`sight_put`).  Where a path may be written is what
  `target` finds (`target_eq_ok`).  So a disk on which a file was written
  differs from the one before at the location of the path alone, and the
  path opens to what was written (`differsAt_of_writeFile`).
-/
import YamlDocs.Proofs.Files.Walk
import Mathlib.Data.List.Basic

namespace YamlDocs

/-! ## §1. Putting a file into a tree. -/

namespace Node

/-- Below a directory in which one entry was set. -/
theorem descend?_directory_set (name : Bytes) (new : Node) (entries : List (Bytes × Node))
    (other : Bytes) (rest : List Bytes) :
    (directory (Bindings.set name new entries)).descend? (other :: rest) =
      if other = name then new.descend? rest else (directory entries).descend? (other :: rest) := by
  rw [descend?, child?, Bindings.lookup_set]
  by_cases h : other = name
  · rw [if_pos h, if_pos h]
  · rw [if_neg h, if_neg h, descend?, child?]

/-- Nothing is below a file. -/
theorem descend?_file_cons (content : Bytes) (name : Bytes) (rest : List Bytes) :
    (file content).descend? (name :: rest) = none := rfl

/-- A directory that is seen behind a name is entered through a directory. -/
theorem exists_child_of_descend? {tree : Node} {name : Bytes} {rest : List Bytes}
    (h : Sight.ofNode? (tree.descend? (name :: rest)) = .directory) :
    ∃ entries child, tree = directory entries ∧ entries.lookup name = some child ∧
      Sight.ofNode? (child.descend? rest) = .directory := by
  cases tree with
  | file content => cases h
  | directory entries =>
      rw [descend?, child?] at h
      cases hchild : entries.lookup name with
      | none =>
          rw [hchild] at h
          cases h
      | some child =>
          rw [hchild] at h
          exact ⟨entries, child, rfl, hchild, h⟩

/-- What is seen behind names, outermost first, after a file was put into a directory. -/
theorem sight_descend?_put {name : Bytes} {content : Bytes} {names : List Bytes} :
    ∀ {tree : Node}, Sight.ofNode? (tree.descend? names) = .directory →
      Sight.ofNode? (tree.descend? (names ++ [name])) ≠ .directory → ∀ other : List Bytes,
      Sight.ofNode? ((tree.put (names ++ [name]) (.file content)).descend? other) =
        if other = names ++ [name] then .file content else Sight.ofNode? (tree.descend? other) := by
  -- The names lead down to the directory; what does not begin with them is off the way.
  induction names with
  | nil =>
      intro tree hdirectory hfree other
      cases tree with
      | file old => exact nomatch hdirectory
      | directory entries =>
          rw [List.nil_append, put, put]
          cases other with
          | nil => rfl
          | cons first rest =>
              rw [descend?_directory_set]
              by_cases hfirst : first = name
              · subst hfirst
                rw [if_pos rfl]
                cases rest with
                | nil => rw [if_pos rfl]; rfl
                | cons second rest =>
                    -- There was no directory of this name, so nothing was and is below it.
                    rw [descend?_file_cons, if_neg (by simp), descend?, child?]
                    rw [List.nil_append, descend?, child?] at hfree
                    cases hold : entries.lookup first with
                    | none => rfl
                    | some old =>
                        rw [hold] at hfree
                        cases old with
                        | file old => rfl
                        | directory entries => exact absurd rfl hfree
              · rw [if_neg hfirst, if_neg fun h => hfirst (List.cons.inj h).1]
  | cons front names ih =>
      intro tree hdirectory hfree other
      obtain ⟨entries, child, rfl, hchild, hbelow⟩ := exists_child_of_descend? hdirectory
      rw [List.cons_append, descend?, child?, hchild] at hfree
      rw [List.cons_append, put, hchild]
      cases other with
      | nil => rfl
      | cons first rest =>
          rw [descend?_directory_set]
          by_cases hfirst : first = front
          · subst hfirst
            rw [if_pos rfl, Option.getD_some, ih hbelow hfree rest, descend?, child?, hchild]
            simp only [List.cons.injEq, true_and]
          · rw [if_neg hfirst, if_neg fun h => hfirst (List.cons.inj h).1]

/-- **A file that is put into a directory is seen there, and nothing else is seen to change**, unless
a directory stood in its place. -/
theorem sight_put {tree : Node} {parent : Location} {name : Bytes}
    (hparent : tree.sight parent = .directory)
    (hfree : tree.sight (name :: parent) ≠ .directory) (content : Bytes) (other : Location) :
    (tree.put (name :: parent).reverse (.file content)).sight other =
      if other = name :: parent then .file content else tree.sight other := by
  unfold sight at? at hparent hfree ⊢
  rw [List.reverse_cons] at hfree ⊢
  rw [sight_descend?_put hparent hfree]
  congr 1
  rw [← List.reverse_cons, List.reverse_inj]

end Node

/-! ## §2. Where a path may be written. -/

namespace Disk

/-- A path whose last piece is empty is empty or ends in a slash. -/
theorem getLast?_of_getLast?_splitOn {bytes : Bytes}
    (h : (bytes.splitOn Path.slash).getLast? = some []) :
    bytes = [] ∨ bytes.getLast? = some Path.slash := by
  induction bytes with
  | nil => exact Or.inl rfl
  | cons first rest ih =>
      right
      obtain ⟨head, tail, hsplit⟩ :=
        List.exists_cons_of_ne_nil (List.splitOn_ne_nil Path.slash rest)
      rw [List.splitOn_cons_eq_if_modifyHead, hsplit] at h
      rw [hsplit] at ih
      rw [List.getLast?_cons]
      split at h
      case isTrue hfirst =>
        rw [List.getLast?_cons_cons] at h
        rcases ih h with rfl | hlast
        · rw [beq_iff_eq.mp hfirst]
          rfl
        · rw [hlast]
          rfl
      case isFalse =>
        cases tail with
        | nil => exact nomatch h
        | cons second tail =>
            rw [List.modifyHead_cons, List.getLast?_cons_cons] at h
            rcases ih (by rw [List.getLast?_cons_cons, h]) with rfl | hlast
            · exact nomatch hsplit
            · rw [hlast]
              rfl

/-- A path asks for no directory if its last piece that is more than slashes is no dot and no slash
stands behind it. -/
theorem namesDirectory_eq_false {path : Path} {last : Bytes}
    (hlast : (path.segments.filter (· ≠ [])).getLast? = some last) (hdot : last ≠ [Path.dot])
    (hslash : path.bytes.getLast? ≠ some Path.slash) : namesDirectory path = false := by
  unfold namesDirectory
  cases hend : path.segments.getLast? with
  | none => rfl
  | some segment =>
      obtain ⟨front, hsegments⟩ := List.getLast?_eq_some_iff.mp hend
      have hne : segment ≠ [] := by
        rintro rfl
        rcases getLast?_of_getLast?_splitOn hend with hnil | hslash'
        · unfold Path.segments at hlast
          rw [hnil] at hlast
          exact nomatch hlast
        · exact hslash hslash'
      have hsame : segment = last := by
        rw [hsegments, List.filter_append, List.filter_cons_of_pos (by simpa using hne),
          List.filter_nil, List.getLast?_concat] at hlast
        exact Option.some.inj hlast
      simp only [decide_eq_false_iff_not, not_or]
      exact ⟨hne, hsame ▸ hdot⟩

/-- **Where a path may be written**: it leads through a directory that is there to a name that is no
directory, and does not ask for one. -/
theorem target_eq_ok {disk : Disk} {path : Path} {parent : Location} {name : Bytes}
    (h : disk.target path = .ok (parent, name)) :
    checkSpelling path = .ok () ∧ namesDirectory path = false ∧
      path.components = path.components.dropLast ++ [.name name] ∧
      disk.tree.walk disk.workingDirectory path.components.dropLast = .ok parent ∧
      disk.tree.sight parent = .directory ∧ name.length ≤ Node.maxNameLength ∧
      disk.tree.sight (name :: parent) ≠ .directory := by
  unfold target at h
  cases hspelling : checkSpelling path with
  | error error => rw [hspelling] at h; exact nomatch h
  | ok accepted =>
      rw [hspelling] at h
      simp only [bind, Except.bind] at h
      split at h
      case h_2 =>
        split at h <;> exact nomatch h
      case h_1 found last hname hlast =>
        split at h
        case isTrue =>
          -- A dot at the end is refused whatever it leads to.
          split at h
          case h_1 => exact nomatch h
          case h_2 => split at h <;> exact nomatch h
        case isFalse hdot =>
          split at h
          case h_1 => exact nomatch h
          case h_2 middle hwalk =>
            split at h
            case h_2 => exact nomatch h
            case h_3 => exact nomatch h
            case h_1 entries hparent =>
              split at h
              case isTrue => exact nomatch h
              case isFalse hslash =>
                split at h
                case isTrue => exact nomatch h
                case isFalse hlong =>
                  split at h
                  case h_1 => exact nomatch h
                  case h_2 hfree =>
                    obtain ⟨rfl, rfl⟩ := Prod.mk.inj (Except.ok.inj h)
                    refine ⟨rfl, namesDirectory_eq_false hlast hdot hslash,
                      (List.dropLast_append_getLast? _ hname).symm, hwalk,
                      Node.sight_eq_directory_iff.mpr ⟨entries, hparent⟩, Nat.not_lt.mp hlong, ?_⟩
                    rw [Ne, Node.sight_eq_directory_iff, Node.at?_cons, hparent]
                    intro hdirectory
                    obtain ⟨others, hothers⟩ := hdirectory
                    exact hfree others hothers

/-! ## §3. Disks before and after. -/

/-- The disks are the same but for the file that a path names behind, which holds the given
bytes. -/
structure DiffersAt (before after : Disk) (path : Path) (content : Bytes) : Prop where
  workingDirectory : after.workingDirectory = before.workingDirectory
  opens : after.openFile path = .ok content
  elsewhere : ∃ location,
    after.tree.walk after.workingDirectory path.components = .ok location ∧
      ∀ other, other ≠ location → after.tree.sight other = before.tree.sight other

/-- **Writing a file changes the file that the path names and nothing else.** -/
theorem differsAt_of_writeFile {disk after : Disk} {path : Path} {content : Bytes}
    (h : disk.writeFile path content = .ok after) : disk.DiffersAt after path content := by
  unfold writeFile at h
  cases htarget : disk.target path with
  | error error => rw [htarget] at h; exact nomatch h
  | ok place =>
      obtain ⟨parent, name⟩ := place
      rw [htarget] at h
      obtain rfl := Except.ok.inj h
      obtain ⟨hspelling, hnames, hcomponents, hwalk, hparent, hlength, hfree⟩ :=
        target_eq_ok htarget
      have hsight := Node.sight_put hparent hfree content
      generalize disk.tree.put (name :: parent).reverse (.file content) = tree at hsight
      have hthere : tree.sight (name :: parent) = .file content := by
        rw [hsight, if_pos rfl]
      have helsewhere : ∀ other, other ≠ name :: parent →
          tree.sight other = disk.tree.sight other := by
        intro other hother
        rw [hsight, if_neg hother]
      -- The new file is in nobody's way: the walk to its directory goes through directories.
      have hdirectory : ∀ l, disk.tree.sight l = .directory → tree.sight l = .directory := by
        intro l hl
        rw [helsewhere l (by rintro rfl; exact hfree hl), hl]
      have hkept : ∀ l, disk.tree.sight l ≠ .nothing → tree.sight l ≠ .nothing := by
        intro l hl
        by_cases hplace : l = name :: parent
        · rw [hplace, hthere]
          exact nofun
        · rw [helsewhere l hplace]
          exact hl
      have harrives : tree.walk disk.workingDirectory path.components =
          .ok (name :: parent) := by
        rw [hcomponents, Node.walk_append_eq_ok_iff]
        refine ⟨parent, Node.walk_of_sight hdirectory hkept hwalk,
          Node.walk_singleton_eq_ok_iff.mpr (Node.step_eq_ok_iff.mpr
            ⟨hdirectory parent hparent, .name hlength ?_⟩)⟩
        rw [hthere]
        exact nofun
      exact ⟨rfl, openFile_eq_ok_iff.mpr ⟨hspelling, hnames, _, harrives, hthere⟩,
        _, harrives, helsewhere⟩

end Disk

end YamlDocs
