/-
  YamlDocs.Proofs.Result
  ────────────────────────────────
  **RESULTS OF COMPUTATIONS THAT MAY FAIL.**

  A computation over a list succeeds if it does so for every element
  (`mapM_eq_some_iff`).  Otherwise the first failure is what it gives
  (`mapM_eq_error_iff`); of computations one behind the other, too, the first
  that fails decides (`bind_eq_error_iff`).
-/
import Mathlib.Data.List.Forall2

namespace YamlDocs

/-! ## §1. Lists of which every element has a value. -/

section Values

variable {α β : Type} {f : α → Option β} {xs : List α}

theorem mapM_eq_some_iff {ys : List β} :
    xs.mapM f = some ys ↔ List.Forall₂ (fun x y => f x = some y) xs ys := by
  induction xs generalizing ys with
  | nil => simp [eq_comm]
  | cons x xs ih =>
      rw [List.mapM_cons, List.forall₂_cons_left_iff]
      simp only [Option.bind_eq_bind, Option.bind_eq_some_iff, ih]
      constructor
      · rintro ⟨y, hy, ys, hys, ⟨⟩⟩
        exact ⟨y, ys, hy, hys, rfl⟩
      · rintro ⟨y, ys, hy, hys, rfl⟩
        exact ⟨y, hy, ys, hys, rfl⟩

theorem mapM_eq_none_iff : xs.mapM f = none ↔ ∃ x ∈ xs, f x = none := by
  induction xs with
  | nil => simp
  | cons x xs ih =>
      rw [List.mapM_cons]
      cases hx : f x with
      | none => simp [hx]
      | some y =>
          simp only [Option.bind_eq_bind, Option.bind_some, List.exists_mem_cons_iff, hx, ← ih]
          cases xs.mapM f <;> simp

end Values

/-! ## §2. Computations that report why they fail. -/

section Failures

variable {ε α β : Type} {result : Except ε α} {next : α → Except ε β}

theorem bind_eq_ok_iff {value : β} :
    result >>= next = .ok value ↔ ∃ given, result = .ok given ∧ next given = .ok value := by
  cases result with
  | error error => exact iff_of_false (fun h => nomatch h) fun ⟨_, h, _⟩ => nomatch h
  | ok given =>
      constructor
      · exact fun h => ⟨given, rfl, h⟩
      · rintro ⟨_, ⟨⟩, h⟩
        exact h

theorem bind_eq_error_iff {error : ε} :
    result >>= next = .error error ↔
      result = .error error ∨ ∃ given, result = .ok given ∧ next given = .error error := by
  cases result with
  | error other =>
      constructor
      · exact fun h => Or.inl (congrArg _ (Except.error.inj h))
      · rintro (h | ⟨_, h, -⟩)
        · exact congrArg _ (Except.error.inj h)
        · exact nomatch h
  | ok given =>
      constructor
      · exact fun h => Or.inr ⟨given, rfl, h⟩
      · rintro (h | ⟨_, ⟨⟩, h⟩)
        · exact nomatch h
        · exact h

theorem map_eq_ok_iff {f : α → β} {value : β} :
    result.map f = .ok value ↔ ∃ given, result = .ok given ∧ f given = value := by
  cases result with
  | error error => simp [Except.map]
  | ok given => simp [Except.map]

/-- What is done to a result keeps its failure. -/
theorem map_eq_error_iff (f : α → β) (result : Except ε α) (error : ε) :
    result.map f = .error error ↔ result = .error error := by
  cases result with
  | error other =>
      constructor
      · intro h
        exact congrArg _ (Except.error.inj h)
      · intro h
        exact congrArg _ (Except.error.inj h)
  | ok value => exact iff_of_false (fun h => nomatch h) (fun h => nomatch h)

/-- What is done to a failure keeps it one. -/
theorem mapError_eq_error_iff {ε' : Type} {f : ε → ε'} {failure : ε'} :
    result.mapError f = .error failure ↔ ∃ error, result = .error error ∧ f error = failure := by
  cases result with
  | ok value => simp [Except.mapError]
  | error error => simp [Except.mapError]

theorem mapError_eq_ok_iff {ε' : Type} {f : ε → ε'} {value : α} :
    result.mapError f = .ok value ↔ result = .ok value := by
  cases result with
  | ok other => simp [Except.mapError]
  | error error => simp [Except.mapError]

/-- **The first failure is reported.** -/
theorem mapM_eq_error_iff {f : α → Except ε β} {items : List α} {error : ε} :
    items.mapM f = .error error ↔
      ∃ front item rest, items = front ++ item :: rest ∧
        (∀ earlier ∈ front, ∃ value, f earlier = .ok value) ∧ f item = .error error := by
  induction items with
  | nil =>
      constructor
      · exact fun h => nomatch h
      · rintro ⟨front, item, rest, h, -⟩
        exact absurd h.symm (List.append_ne_nil_of_right_ne_nil _ (List.cons_ne_nil _ _))
  | cons first items ih =>
      rw [List.mapM_cons, bind_eq_error_iff]
      constructor
      · rintro (hfirst | ⟨value, hfirst, hbehind⟩)
        · exact ⟨[], first, items, rfl, fun _ h => absurd h List.not_mem_nil, hfirst⟩
        · rcases bind_eq_error_iff.mp hbehind with hitems | ⟨values, -, hpure⟩
          · obtain ⟨front, item, rest, rfl, hfront, hitem⟩ := ih.mp hitems
            exact ⟨first :: front, item, rest, rfl,
              List.forall_mem_cons.mpr ⟨⟨value, hfirst⟩, hfront⟩, hitem⟩
          · exact nomatch hpure
      · rintro ⟨front, item, rest, h, hfront, hitem⟩
        cases front with
        | nil =>
            obtain ⟨rfl, rfl⟩ := List.cons.inj h
            exact Or.inl hitem
        | cons other front =>
            obtain ⟨rfl, rfl⟩ := List.cons.inj h
            obtain ⟨⟨value, hfirst⟩, hothers⟩ := List.forall_mem_cons.mp hfront
            have hitems := ih.mpr ⟨front, item, rest, rfl, hothers, hitem⟩
            exact Or.inr ⟨value, hfirst, bind_eq_error_iff.mpr (Or.inl hitems)⟩

end Failures

end YamlDocs
