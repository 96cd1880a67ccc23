/-
  YamlDocs.Proofs.Document.Expansion
  ────────────────────────────────
  **EXACTLY THE DIRECTIVES OUTSIDE LITERAL BLOCKS ARE EXPANDED.**

  `Replacement` says what stands in place of a line of a document: a literal
  line stays whatever it looks like, a line that is no directive stays, and a
  directive gives way to the documentation of the file that it names.
  `expand_eq_ok_iff` says that an expansion succeeds with a text exactly if
  every line has a replacement and the text is put together from them.
-/
import YamlDocs.Proofs.Document.Run

namespace YamlDocs

/-! ## §1. Replacements. -/

/-- What stands in place of the line at a position of a document with the given lines. -/
inductive Replacement (files : FileView) (env : Environment) (document : Path)
    (lines : List Text) : Text × Nat → List Text → Prop
  /-- A literal line stays, directive or not. -/
  | literal {line : Text} {i : Nat} (hliteral : IsLiteral lines i) :
      Replacement files env document lines (line, i) [line]
  /-- A line that is no directive stays. -/
  | ordinary {line : Text} {i : Nat} (hliteral : ¬ IsLiteral lines i)
      (hparse : Directive.parse document (i + 1) line = .ok none) :
      Replacement files env document lines (line, i) [line]
  /-- A directive gives way to the entries of its file, one line each. -/
  | directive {line : Text} {i : Nat} {directive : Directive} {buffer : Buffer}
      (hliteral : ¬ IsLiteral lines i)
      (hparse : Directive.parse document (i + 1) line = .ok (some directive))
      (hload : load files env.markers (env.resolve directive.argument) = .ok buffer) :
      Replacement files env document lines (line, i)
        (buffer.map fun entry =>
          if entry.text = [] then [] else directive.indent ++ entry.text)

/-- A line has a replacement exactly if its outcome is no failure. -/
theorem exists_outcome_eq_ok_iff (files : FileView) (env : Environment) (document : Path)
    {lines : List Text} {line : Text} {i : Nat} (hline : lines[i]? = some line)
    (group : List Text) :
    (∃ paths, env.outcome files document (i + 1) ((blockBefore lines i).contains line) line =
        .ok (group, paths)) ↔
      Replacement files env document lines (line, i) group := by
  have hcontains := contains_blockBefore_iff hline
  unfold Environment.outcome
  cases hin : (blockBefore lines i).contains line with
  | true =>
      have hliteral : IsLiteral lines i := hcontains.mp hin
      constructor
      · intro h
        obtain ⟨paths, h⟩ := h
        obtain ⟨rfl, -⟩ := Prod.mk.inj (Except.ok.inj h)
        exact .literal hliteral
      · intro h
        cases h with
        | literal => exact ⟨[], rfl⟩
        | ordinary hnot => exact absurd hliteral hnot
        | directive hnot => exact absurd hliteral hnot
  | false =>
      have hnot : ¬ IsLiteral lines i := fun h => by simp [hcontains.mpr h] at hin
      simp only [Bool.false_eq_true, if_false]
      constructor
      · intro h
        obtain ⟨paths, h⟩ := h
        split at h
        case h_1 => exact nomatch h
        case h_2 hparse =>
          obtain ⟨rfl, -⟩ := Prod.mk.inj (Except.ok.inj h)
          exact .ordinary hnot hparse
        case h_3 directive hparse =>
          unfold Environment.loadOutcome at h
          split at h
          case h_1 => exact nomatch h
          case h_2 buffer hload =>
            obtain ⟨rfl, -⟩ := Prod.mk.inj (Except.ok.inj h)
            exact .directive hnot hparse hload
      · intro h
        cases h with
        | literal hliteral => exact absurd hliteral hnot
        | ordinary _ hparse => rw [hparse]; exact ⟨[], rfl⟩
        | directive _ hparse hload =>
            rw [hparse]
            simp only [Environment.loadOutcome, hload]
            exact ⟨_, rfl⟩

/-! ## §2. Documents. -/

theorem endsWithLineEnd_iff (text : Text) :
    Text.endsWithLineEnd text = true ↔ text.getLast? = some '\n' ∨ text.getLast? = some '\r' := by
  unfold Text.endsWithLineEnd
  cases text.getLast? with
  | none => simp
  | some c => simp

/-- Two relations that agree on the members of a list relate it to the same lists. -/
theorem forall₂_congr_of_mem {α β : Type} {R S : α → β → Prop} {xs : List α} {ys : List β}
    (h : ∀ x ∈ xs, ∀ y, R x y ↔ S x y) : List.Forall₂ R xs ys ↔ List.Forall₂ S xs ys := by
  constructor
  · intro hR
    refine ((List.forall₂_and_left xs ys).mpr ⟨fun x hx => hx, hR⟩).imp ?_
    intro x y hxy
    exact (h x hxy.1 y).mp hxy.2
  · intro hS
    refine ((List.forall₂_and_left xs ys).mpr ⟨fun x hx => hx, hS⟩).imp ?_
    intro x y hxy
    exact (h x hxy.1 y).mpr hxy.2

/-- The outcomes of a document are its replacements, line by line. -/
theorem forall₂_outcomes_iff (files : FileView) (env : Environment) (document : Path)
    (lines : List Text) (groups : List (List Text)) :
    List.Forall₂ (fun outcome group => ∃ paths, outcome = .ok (group, paths))
        (env.outcomes files document lines) groups ↔
      List.Forall₂ (Replacement files env document lines) lines.zipIdx groups := by
  unfold Environment.outcomes
  rw [List.mapIdx_eq_zipIdx_map, List.forall₂_map_left_iff]
  refine forall₂_congr_of_mem fun placed hmem group => ?_
  obtain ⟨line, i⟩ := placed
  exact exists_outcome_eq_ok_iff files env document (List.mk_mem_zipIdx_iff_getElem?.mp hmem) group

/-- **Exactly the directives outside literal blocks are expanded.** An expansion succeeds with a
text if and only if every line has a replacement and the text is their lines, joined by line feeds,
with a line feed at the end exactly if the document ends in a line feed or a carriage return. -/
theorem expand_eq_ok_iff (files : FileView) (env : Environment) (document : Path)
    (source text : Text) :
    (env.expand files document source).2 = .ok text ↔
      ∃ groups,
        List.Forall₂ (Replacement files env document (Text.lines source))
          (Text.lines source).zipIdx groups ∧
        text = Text.join ['\n'] groups.flatten ++
          (if source.getLast? = some '\n' ∨ source.getLast? = some '\r' then ['\n'] else []) := by
  rw [Environment.expand_eq]
  show (gather _).2.map _ = .ok text ↔ _
  simp only [← endsWithLineEnd_iff, ← forall₂_outcomes_iff]
  constructor
  · intro h
    cases hall : (gather (env.outcomes files document (Text.lines source))).2 with
    | error error => rw [hall] at h; exact nomatch h
    | ok lines =>
        rw [hall] at h
        obtain ⟨groups, hgroups, rfl⟩ := (gather_eq_ok_iff _ _).mp hall
        exact ⟨groups, hgroups, (Except.ok.inj h).symm⟩
  · intro h
    obtain ⟨groups, hgroups, rfl⟩ := h
    rw [(gather_eq_ok_iff _ _).mpr ⟨groups, hgroups, rfl⟩]
    rfl

end YamlDocs
