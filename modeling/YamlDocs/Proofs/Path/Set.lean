/-
  YamlDocs.Proofs.Path.Set
  ────────────────────────────────
  **MEMBERS OF PATH SETS.**

  A set of paths has a path if it lists one with the same components,
  whatever its spelling.  Putting a path in makes it a member and changes
  nothing else (`has_insert`).  Where equal components mean equal spellings,
  the listed paths themselves are known as well (`mem_toList_insert`).

  A set that grows from the empty one is strictly increasing, so it lists no
  two paths with equal components.  It lists exactly those of the given paths
  that no equal one precedes (`mem_insertAll_iff`).
-/
import YamlDocs.Path.Order
import Mathlib.Data.List.Pairwise

namespace YamlDocs

/-! ## §1. Members. -/

/-- Paths compare as equal exactly if they have the same components. -/
theorem Path.compare_eq_iff {p q : Path} : compare p q = .eq ↔ p.components = q.components := by
  show compare p.components q.components = .eq ↔ _
  exact Std.LawfulEqOrd.compare_eq_iff_eq

namespace PathSet

/-- Some listed path has the components of the given one. -/
def Has (set : PathSet) (path : Path) : Prop :=
  ∃ member ∈ set.toList, member.components = path.components

theorem exists_mem_insertInto_iff (new path : Path) (list : List Path) :
    (∃ member ∈ insertInto new list, member.components = path.components) ↔
      new.components = path.components ∨
        ∃ member ∈ list, member.components = path.components := by
  induction list with
  | nil => simp [insertInto]
  | cons head rest ih =>
      unfold insertInto
      split
      case h_1 => simp
      case h_2 heq =>
        -- The old spelling stays and stands for the new one.
        rw [Path.compare_eq_iff] at heq
        simp [heq]
      case h_3 =>
        simp only [List.mem_cons, exists_eq_or_imp, ih]
        exact or_left_comm

/-- **Putting a path in adds this path and no other.** -/
theorem has_insert (set : PathSet) (new path : Path) :
    (set.insert new).Has path ↔ new.components = path.components ∨ set.Has path :=
  exists_mem_insertInto_iff new path set.toList

/-- A path whose components fix its spelling is listed as it is spelled. -/
theorem mem_toList_insert {set : PathSet} {new : Path}
    (hnew : ∀ member ∈ set.toList, new.components = member.components → new = member)
    (path : Path) : path ∈ (set.insert new).toList ↔ path = new ∨ path ∈ set.toList := by
  obtain ⟨list⟩ := set
  show path ∈ insertInto new list ↔ path = new ∨ path ∈ list
  induction list with
  | nil => simp [insertInto]
  | cons head rest ih =>
      have ih := ih fun member hmember => hnew member (List.mem_cons_of_mem head hmember)
      unfold insertInto
      split
      case h_1 => simp
      case h_2 heq =>
        obtain rfl := hnew head List.mem_cons_self (Path.compare_eq_iff.mp heq)
        simp
      case h_3 =>
        rw [List.mem_cons, List.mem_cons, ih]
        exact or_left_comm

/-- **A path that has been put in** is not put in again. -/
theorem insert_insert (set : PathSet) (path : Path) :
    (set.insert path).insert path = set.insert path := by
  have hsame : compare path path = .eq := Path.compare_eq_iff.mpr rfl
  obtain ⟨list⟩ := set
  show (⟨insertInto path (insertInto path list)⟩ : PathSet) = ⟨insertInto path list⟩
  congr 1
  induction list with
  | nil => simp only [insertInto, hsame]
  | cons head rest ih =>
      cases horder : compare path head with
      | lt => simp only [insertInto, horder, hsame]
      | eq => simp only [insertInto, horder]
      | gt => simp only [insertInto, horder, ih]

end PathSet

/-! ## §2. Increasing sets. -/

instance : Std.TransOrd Path := inferInstanceAs (Std.TransCmp (compareOn Path.components))

theorem Path.components_ne_of_compare_eq_lt {p q : Path} (h : compare p q = .lt) :
    p.components ≠ q.components := by
  intro heq
  rw [compare_eq_iff.mpr heq] at h
  exact nomatch h

namespace PathSet

/-- The paths are listed in strictly increasing order. -/
def IsIncreasing (set : PathSet) : Prop := set.toList.Pairwise fun p q => compare p q = .lt

theorem isIncreasing_empty : IsIncreasing {} := .nil

theorem eq_or_mem_of_mem_insertInto {new path : Path} {list : List Path}
    (h : path ∈ insertInto new list) : path = new ∨ path ∈ list := by
  induction list with
  | nil => exact Or.inl (List.mem_singleton.mp h)
  | cons head rest ih =>
      unfold insertInto at h
      split at h
      case h_1 => exact List.mem_cons.mp h
      case h_2 => exact Or.inr h
      case h_3 =>
        rcases List.mem_cons.mp h with rfl | hrest
        · exact Or.inr List.mem_cons_self
        · exact (ih hrest).imp_right (List.mem_cons_of_mem head)

/-- **An increasing set stays increasing.** -/
theorem IsIncreasing.insert {set : PathSet} (h : set.IsIncreasing) (new : Path) :
    (set.insert new).IsIncreasing := by
  obtain ⟨list⟩ := set
  change list.Pairwise _ at h
  show (insertInto new list).Pairwise _
  induction list with
  | nil => exact List.pairwise_singleton _ _
  | cons head rest ih =>
      obtain ⟨hhead, hrest⟩ := List.pairwise_cons.mp h
      unfold insertInto
      split
      case h_1 hlt =>
        refine List.pairwise_cons.mpr ⟨fun path hpath => ?_, h⟩
        rcases List.mem_cons.mp hpath with rfl | hpath
        · exact hlt
        · exact Std.TransCmp.lt_trans hlt (hhead path hpath)
      case h_2 => exact h
      case h_3 hgt =>
        refine List.pairwise_cons.mpr ⟨fun path hpath => ?_, ih hrest⟩
        rcases eq_or_mem_of_mem_insertInto hpath with rfl | hpath
        · exact Std.OrientedCmp.lt_of_gt hgt
        · exact hhead path hpath

/-- No two paths of an increasing set have equal components. -/
theorem IsIncreasing.eq_of_components_eq {set : PathSet} (h : set.IsIncreasing) {p q : Path}
    (hp : p ∈ set.toList) (hq : q ∈ set.toList) (heq : p.components = q.components) : p = q := by
  have hdistinct : set.toList.Pairwise fun p q => p.components ≠ q.components :=
    h.imp Path.components_ne_of_compare_eq_lt
  have : Std.Symm fun p q : Path => p.components ≠ q.components := ⟨fun _ _ hne => hne.symm⟩
  by_contra hne
  exact hdistinct.forall hp hq hne heq

/-- **The spelling that is listed**: a new path is listed as it is spelled unless an equal one is
there, and what is listed stays. -/
theorem IsIncreasing.mem_toList_insert_iff {set : PathSet} (h : set.IsIncreasing)
    (new path : Path) :
    path ∈ (set.insert new).toList ↔ path ∈ set.toList ∨ path = new ∧ ¬ set.Has new := by
  obtain ⟨list⟩ := set
  show path ∈ insertInto new list ↔
    path ∈ list ∨ path = new ∧ ¬ ∃ member ∈ list, member.components = new.components
  change list.Pairwise _ at h
  induction list with
  | nil => simp [insertInto]
  | cons head rest ih =>
      obtain ⟨hhead, hrest⟩ := List.pairwise_cons.mp h
      unfold insertInto
      split
      case h_1 hlt =>
        -- The new path comes before all others, so it equals none of them.
        have hnone : ¬ ∃ member ∈ head :: rest, member.components = new.components := by
          rintro ⟨member, hmember, heq⟩
          refine Path.components_ne_of_compare_eq_lt ?_ heq.symm
          rcases List.mem_cons.mp hmember with rfl | hmember
          · exact hlt
          · exact Std.TransCmp.lt_trans hlt (hhead member hmember)
        rw [List.mem_cons, or_comm]
        exact or_congr_right (and_iff_left hnone).symm
      case h_2 heq =>
        have hhas : ∃ member ∈ head :: rest, member.components = new.components :=
          ⟨head, List.mem_cons_self, (Path.compare_eq_iff.mp heq).symm⟩
        exact (or_iff_left fun h => h.2 hhas).symm
      case h_3 hgt =>
        have hne : head.components ≠ new.components :=
          Path.components_ne_of_compare_eq_lt (Std.OrientedCmp.lt_of_gt hgt)
        rw [List.mem_cons, List.mem_cons, ih hrest, or_assoc]
        simp only [List.mem_cons, exists_eq_or_imp, hne, false_or]

/-! ## §3. Many paths. -/

/-- The set with some more paths, put in one after the other. -/
def insertAll (set : PathSet) (paths : List Path) : PathSet := paths.foldl insert set

theorem insertAll_append (set : PathSet) (first second : List Path) :
    set.insertAll (first ++ second) = (set.insertAll first).insertAll second :=
  List.foldl_append

/-- **Putting paths in adds these paths and no other.** -/
theorem has_insertAll (paths : List Path) (path : Path) :
    ∀ set : PathSet, (set.insertAll paths).Has path ↔
      set.Has path ∨ ∃ new ∈ paths, new.components = path.components := by
  induction paths with
  | nil => intro set; simp [insertAll]
  | cons first rest ih =>
      intro set
      show ((set.insert first).insertAll rest).Has path ↔ _
      rw [ih, has_insert]
      simp only [List.mem_cons, exists_eq_or_imp]
      rw [or_comm (a := first.components = path.components), or_assoc]

theorem IsIncreasing.insertAll {set : PathSet} (h : set.IsIncreasing) (paths : List Path) :
    (set.insertAll paths).IsIncreasing := by
  induction paths generalizing set with
  | nil => exact h
  | cons path rest ih => exact ih (h.insert path)

/-- **The spellings that are listed in the end**: those that were there, and of equal paths that
were not there the one that is put in first. -/
theorem IsIncreasing.mem_toList_insertAll_iff (paths : List Path) (path : Path) :
    ∀ {set : PathSet}, set.IsIncreasing →
      (path ∈ (set.insertAll paths).toList ↔
        path ∈ set.toList ∨
          paths.find? (fun other => other.components = path.components) = some path ∧
            ¬ set.Has path) := by
  induction paths with
  | nil => intro set _; simp [PathSet.insertAll]
  | cons new rest ih =>
      intro set h
      show path ∈ ((set.insert new).insertAll rest).toList ↔ _
      rw [ih (h.insert new), h.mem_toList_insert_iff, has_insert, List.find?_cons]
      by_cases heq : new.components = path.components
      · -- Nothing behind the new path can stand for it.
        have hhas : set.Has new ↔ set.Has path := by
          unfold Has
          rw [heq]
        simp only [heq, true_or, not_true_eq_false, and_false, or_false, decide_true,
          Option.some.injEq, hhas]
        rw [eq_comm (a := path)]
      · have hne : path ≠ new := fun h => heq (h ▸ rfl)
        simp only [heq, hne, false_and, or_false, false_or, decide_false]

/-- **A set that grows from the empty one** lists of equal paths the one that is put in first. -/
theorem mem_insertAll_iff (paths : List Path) (path : Path) :
    path ∈ (insertAll {} paths).toList ↔
      paths.find? (fun other => other.components = path.components) = some path := by
  rw [isIncreasing_empty.mem_toList_insertAll_iff]
  simp [Has]

end PathSet

end YamlDocs
