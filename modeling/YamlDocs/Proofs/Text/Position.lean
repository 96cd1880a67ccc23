/-
  YamlDocs.Proofs.Text.Position
  ────────────────────────────────
  **POSITIONS IN A LIST OF LINES.**

  A pass over lines carries a state from one line to the next; what the
  state means is said by looking back over the lines before a position.
  `Since p q n` says that `p` held somewhere before `n` and `q` everywhere
  after that.  It has the two equations of a flag which `p` sets and `q`
  keeps (`not_since_zero`, `since_succ`), so a state is tied to its meaning
  by one induction on the position.
-/
import YamlDocs.Text.Basic

namespace YamlDocs

/-! ## §1. Lines at positions. -/

/-- The line at position `k` exists and passes the test. -/
def HoldsAt (test : Text → Bool) (lines : List Text) (k : Nat) : Prop :=
  lines[k]?.any test = true

instance (test : Text → Bool) (lines : List Text) : DecidablePred (HoldsAt test lines) :=
  fun _ => inferInstanceAs (Decidable (_ = true))

theorem holdsAt_iff {test : Text → Bool} {lines : List Text} {k : Nat} {line : Text}
    (h : lines[k]? = some line) : HoldsAt test lines k ↔ test line = true := by
  unfold HoldsAt
  rw [h]
  rfl

/-- The state behind the first `i + 1` lines is one step from the state behind the first `i`. -/
theorem foldl_take_succ {σ : Type} (step : σ → Text → σ) (start : σ) {lines : List Text} {i : Nat}
    {line : Text} (h : lines[i]? = some line) :
    (lines.take (i + 1)).foldl step start = step ((lines.take i).foldl step start) line := by
  rw [List.take_add_one, h, List.foldl_append]
  rfl

/-! ## §2. Looking back. -/

/-- `p` held at some position before `n`, and `q` has held at every position since. -/
def Since (p q : Nat → Prop) (n : Nat) : Prop :=
  ∃ j, j < n ∧ p j ∧ ∀ k, k < n → j < k → q k

instance (p q : Nat → Prop) [DecidablePred p] [DecidablePred q] : DecidablePred (Since p q) :=
  fun n => inferInstanceAs (Decidable (∃ j, j < n ∧ p j ∧ ∀ k, k < n → j < k → q k))

theorem not_since_zero (p q : Nat → Prop) : ¬ Since p q 0 := by
  intro h
  obtain ⟨j, hj, -⟩ := h
  omega

/-- **A flag that `p` sets and `q` keeps**: one position further, either `p` sets it anew or it
was set before and `q` keeps it. -/
theorem since_succ (p q : Nat → Prop) (n : Nat) :
    Since p q (n + 1) ↔ p n ∨ (Since p q n ∧ q n) := by
  constructor
  · intro h
    obtain ⟨j, hj, hp, hq⟩ := h
    rcases Nat.lt_or_eq_of_le (Nat.le_of_lt_succ hj) with hlt | rfl
    · exact Or.inr ⟨⟨j, hlt, hp, fun k hk hjk => hq k (by omega) hjk⟩, hq n (by omega) hlt⟩
    · exact Or.inl hp
  · intro h
    rcases h with hp | ⟨⟨j, hj, hp, hq⟩, hn⟩
    · exact ⟨n, by omega, hp, fun k hk hnk => by omega⟩
    · refine ⟨j, by omega, hp, fun k hk hjk => ?_⟩
      rcases Nat.lt_or_eq_of_le (Nat.le_of_lt_succ hk) with hlt | rfl
      · exact hq k hlt hjk
      · exact hn

end YamlDocs
