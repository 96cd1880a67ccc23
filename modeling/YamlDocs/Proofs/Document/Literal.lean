/-
  YamlDocs.Proofs.Document.Literal
  ────────────────────────────────
  **WHICH LINES STAND IN LITERAL BLOCKS.**

  The expansion carries the open literal block from line to line.
  `IsLiteral lines i` says the same by position and refers to itself: some
  earlier line which is not literal opens a block, and all lines from there
  up to `i` belong to it.  The two agree at every line
  (`contains_blockBefore_iff`).  The invariant is `openerIndent_blockBefore`:
  the block that is open at a line is the one of an opener that is not
  literal, and every line since then belongs to it.
-/
import YamlDocs.Document.Literal
import YamlDocs.Proofs.Text.Position

namespace YamlDocs

/-! ## §1. Literal lines, by position. -/

/-- An earlier line that is not literal itself opens a literal block, and every line from there up
to position `i` is blank or indented deeper. -/
def IsLiteral (lines : List Text) (i : Nat) : Prop :=
  ∃ (j : Nat) (_ : j < i) (opener : Text), lines[j]? = some opener ∧ ¬ IsLiteral lines j ∧
    LiteralBlock.opens opener = true ∧
    ∀ k, j < k → k ≤ i → ∃ line, lines[k]? = some line ∧
      (Text.isBlankLine line = true ∨ Text.indentWidth opener < Text.indentWidth line)
termination_by i

/-- The first line is not literal. -/
theorem not_isLiteral_zero (lines : List Text) : ¬ IsLiteral lines 0 := by
  rw [IsLiteral]
  intro h
  obtain ⟨j, hj, -⟩ := h
  exact Nat.not_lt_zero j hj

/-- The literal block that is open in front of position `i`. -/
def blockBefore (lines : List Text) (i : Nat) : LiteralBlock :=
  (lines.take i).foldl LiteralBlock.next {}

/-- The line at position `j` is not literal and opens a block with the given indentation. -/
def OpensAt (lines : List Text) (width : Nat) (j : Nat) : Prop :=
  ∃ opener, lines[j]? = some opener ∧ ¬ IsLiteral lines j ∧ LiteralBlock.opens opener = true ∧
    Text.indentWidth opener = width

/-! ## §2. One step. -/

theorem contains_iff {block : LiteralBlock} {line : Text} :
    block.contains line = true ↔
      ∃ width, block.openerIndent = some width ∧ LiteralBlock.belongs width line = true := by
  obtain ⟨openerIndent⟩ := block
  unfold LiteralBlock.contains
  cases openerIndent with
  | none => simp
  | some width => simp

theorem openerIndent_after_iff {line : Text} {width : Nat} :
    (LiteralBlock.after line).openerIndent = some width ↔
      LiteralBlock.opens line = true ∧ Text.indentWidth line = width := by
  unfold LiteralBlock.after
  split
  case isTrue h => simp [h]
  case isFalse h => simp [h]

/-! ## §3. The invariant. -/

section Invariant

variable {lines : List Text} {i : Nat} {line : Text}

/-- A line is literal if it belongs to the block of an opener that is not literal, as every line
since then does. -/
theorem isLiteral_iff_since (hline : lines[i]? = some line) :
    IsLiteral lines i ↔
      ∃ width, Since (OpensAt lines width) (HoldsAt (LiteralBlock.belongs width) lines) i ∧
        LiteralBlock.belongs width line = true := by
  have hbelongs : ∀ {width k : Nat} {member : Text}, lines[k]? = some member →
      (HoldsAt (LiteralBlock.belongs width) lines k ↔
        (Text.isBlankLine member = true ∨ width < Text.indentWidth member)) := by
    intro width k member hmember
    rw [holdsAt_iff hmember]
    simp [LiteralBlock.belongs]
  rw [IsLiteral]
  constructor
  · intro h
    obtain ⟨j, hj, opener, hopener, hnot, hopens, hall⟩ := h
    refine ⟨Text.indentWidth opener, ⟨j, hj, ⟨opener, hopener, hnot, hopens, rfl⟩, ?_⟩, ?_⟩
    · -- The lines before `i` belong since the opener; the line at `i` itself is kept apart.
      intro k hk hjk
      obtain ⟨member, hmember, h⟩ := hall k hjk (Nat.le_of_lt hk)
      exact (hbelongs hmember).mpr h
    · obtain ⟨member, hmember, h⟩ := hall i hj (Nat.le_refl i)
      obtain rfl : line = member := Option.some.inj (hline.symm.trans hmember)
      exact (holdsAt_iff hline).mp ((hbelongs hline).mpr h)
  · intro h
    obtain ⟨width, ⟨j, hj, ⟨opener, hopener, hnot, hopens, rfl⟩, hall⟩, hmine⟩ := h
    refine ⟨j, hj, opener, hopener, hnot, hopens, fun k hjk hki => ?_⟩
    rcases Nat.lt_or_eq_of_le hki with hlt | rfl
    · have hk : k < lines.length := by
        have := (List.getElem?_eq_some_iff.mp hline).1
        omega
      have hmember : lines[k]? = some lines[k] := List.getElem?_eq_getElem hk
      exact ⟨lines[k], hmember, (hbelongs hmember).mp (hall k hlt hjk)⟩
    · exact ⟨line, hline, (hbelongs hline).mp ((holdsAt_iff hline).mpr hmine)⟩

/-- What the tracked block contains is literal, as soon as its opener is found by position. -/
theorem contains_iff_isLiteral_of_since (hline : lines[i]? = some line)
    (hblock : ∀ width, (blockBefore lines i).openerIndent = some width ↔
      Since (OpensAt lines width) (HoldsAt (LiteralBlock.belongs width) lines) i) :
    (blockBefore lines i).contains line = true ↔ IsLiteral lines i := by
  rw [contains_iff, isLiteral_iff_since hline]
  simp only [hblock]

/-- **The invariant of the tracked block**: it is the block of an earlier opener that is not
literal, and every line since then belongs to it. -/
theorem openerIndent_blockBefore (hi : i ≤ lines.length) (width : Nat) :
    (blockBefore lines i).openerIndent = some width ↔
      Since (OpensAt lines width) (HoldsAt (LiteralBlock.belongs width) lines) i := by
  induction i generalizing width with
  | zero => exact iff_of_false (fun h => nomatch h) (not_since_zero _ _)
  | succ i ih =>
      have hline : lines[i]? = some lines[i] := List.getElem?_eq_getElem hi
      have ih := ih (Nat.le_of_succ_le hi)
      have hliteral := contains_iff_isLiteral_of_since hline ih
      rw [since_succ, holdsAt_iff hline]
      unfold blockBefore at ih hliteral ⊢
      rw [foldl_take_succ _ _ hline]
      generalize (lines.take i).foldl LiteralBlock.next {} = block at ih hliteral ⊢
      unfold LiteralBlock.next
      by_cases hin : block.contains lines[i] = true
      · -- A line of the block keeps it and, being literal, opens none.
        obtain ⟨opener, hopener, hbelongs⟩ := contains_iff.mp hin
        rw [if_pos hin, ← ih width]
        constructor
        · intro hwidth
          obtain rfl : opener = width := Option.some.inj (hopener.symm.trans hwidth)
          exact Or.inr ⟨hwidth, hbelongs⟩
        · intro h
          rcases h with ⟨_, _, hnot, _⟩ | ⟨hwidth, _⟩
          · exact absurd (hliteral.mp hin) hnot
          · exact hwidth
      · -- Any other line closes the block and may open its own.
        rw [if_neg hin, openerIndent_after_iff]
        constructor
        · intro h
          obtain ⟨hopens, hwidth⟩ := h
          exact Or.inl ⟨lines[i], hline, fun h => hin (hliteral.mpr h), hopens, hwidth⟩
        · intro h
          rcases h with ⟨opener, hopener, _, hopens, hwidth⟩ | ⟨hsince, hbelongs⟩
          · obtain rfl : lines[i] = opener := Option.some.inj (hline.symm.trans hopener)
            exact ⟨hopens, hwidth⟩
          · exact absurd (contains_iff.mpr ⟨width, (ih width).mpr hsince, hbelongs⟩) hin

/-- **The tracked block contains a line exactly where the line is literal.** -/
theorem contains_blockBefore_iff (hline : lines[i]? = some line) :
    (blockBefore lines i).contains line = true ↔ IsLiteral lines i :=
  contains_iff_isLiteral_of_since hline
    (openerIndent_blockBefore (Nat.le_of_lt (List.getElem?_eq_some_iff.mp hline).1))

end Invariant

end YamlDocs
