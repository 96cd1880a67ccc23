/-
  YamlDocs.Proofs.Document.Markup
  ────────────────────────────────
  **THE SHAPE OF EXPLICIT MARKUP.**

  The readers of markup lines take a line apart from the left.  Here the
  same is said as a decomposition: a line is explicit markup with some body
  if it is an indent, two dots, a gap and the body
  (`explicitMarkup?_eq_some_iff`), and a directive line if besides the body
  is the keyword with arguments (`match?_eq_some_iff`).  Parsing gives what
  such a line holds (`parse_eq_ok_none_iff`, `parse_eq_ok_some_iff`), or says
  that it does not hold exactly one word (`parse_eq_error_iff`).
-/
import YamlDocs.Document.Directive
import YamlDocs.Proofs.Text.Trim
import Mathlib.Data.List.Basic
import Mathlib.Data.List.TakeDrop
import Mathlib.Data.List.TakeWhile

namespace YamlDocs.Directive

/-! ## §1. Runs of blanks. -/

/-- A text of spaces and tabs. -/
def IsGap (text : Text) : Prop := ∀ c ∈ text, isGap c = true

/-- A text that does not begin with a space or a tab. -/
def StartsOutsideGap (text : Text) : Prop := ∀ c ∈ text.head?, isGap c = false

/-- **Cutting a gap off**: the gap and what stands behind it are found if and only if together they
are the text. -/
theorem span_isGap_eq_iff {text gap rest : Text} :
    text.span isGap = (gap, rest) ↔ IsGap gap ∧ StartsOutsideGap rest ∧ text = gap ++ rest := by
  constructor
  · intro h
    rw [List.span_eq_takeWhile_dropWhile, Prod.mk.injEq] at h
    obtain ⟨rfl, rfl⟩ := h
    refine ⟨fun c hc => List.mem_takeWhile_imp hc, fun c hc => ?_,
      List.takeWhile_append_dropWhile.symm⟩
    have hhead := List.head?_dropWhile_not isGap text
    rw [Option.mem_def.mp hc] at hhead
    exact hhead
  · intro h
    obtain ⟨hgap, hrest, rfl⟩ := h
    exact Text.span_append hgap hrest

/-! ## §2. Explicit markup. -/

/-- **Explicit markup** is an indent, two dots, a gap that is not empty, and a body. -/
theorem explicitMarkup?_eq_some_iff {text indent body : Text} :
    explicitMarkup? text = some (indent, body) ↔
      ∃ gap, IsGap indent ∧ IsGap gap ∧ gap ≠ [] ∧ StartsOutsideGap body ∧
        text = indent ++ opener ++ gap ++ body := by
  unfold explicitMarkup?
  constructor
  · intro h
    split at h
    case h_1 before rest hspan =>
      obtain ⟨hindent, -, rfl⟩ := span_isGap_eq_iff.mp hspan
      split at h
      case h_1 => exact nomatch h
      case h_2 behind hdots =>
        obtain rfl := List.isPrefixOf?_eq_some_iff_append_eq.mp hdots
        split at h
        case h_1 => exact nomatch h
        case h_2 gap found hne hgap =>
          obtain ⟨hblank, hfound, rfl⟩ := span_isGap_eq_iff.mp hgap
          obtain ⟨rfl, rfl⟩ := Prod.mk.inj (Option.some.inj h)
          exact ⟨gap, hindent, hblank, hne, hfound, by simp⟩
  · intro h
    obtain ⟨gap, hindent, hgap, hne, hbody, rfl⟩ := h
    obtain ⟨c, gap, rfl⟩ := List.exists_cons_of_ne_nil hne
    have hspan : (indent ++ opener ++ (c :: gap) ++ body).span isGap =
        (indent, opener ++ ((c :: gap) ++ body)) :=
      span_isGap_eq_iff.mpr ⟨hindent, fun d hd => by cases hd; rfl, by simp⟩
    have hdots : opener.isPrefixOf? (opener ++ ((c :: gap) ++ body)) =
        some ((c :: gap) ++ body) :=
      List.isPrefixOf?_eq_some_iff_append_eq.mpr rfl
    have hbehind : ((c :: gap) ++ body).span isGap = (c :: gap, body) :=
      span_isGap_eq_iff.mpr ⟨hgap, hbody, rfl⟩
    rw [hspan]
    simp only [hdots, hbehind]

/-! ## §3. Directive lines. -/

/-- **A directive line** is an indent, two dots, a gap that is not empty, the keyword, and
arguments without line feeds. -/
theorem match?_eq_some_iff {text indent arguments : Text} :
    match? text = some (indent, arguments) ↔
      ∃ gap, IsGap indent ∧ IsGap gap ∧ gap ≠ [] ∧ '\n' ∉ arguments ∧
        text = indent ++ opener ++ gap ++ (keyword ++ arguments) := by
  unfold match?
  constructor
  · intro h
    cases hmarkup : explicitMarkup? text with
    | none => rw [hmarkup] at h; exact nomatch h
    | some found =>
        obtain ⟨before, body⟩ := found
        rw [hmarkup] at h
        simp only at h
        split at h
        case h_1 => exact nomatch h
        case h_2 behind hkeyword =>
          split at h
          case isTrue => exact nomatch h
          case isFalse hfeed =>
            obtain ⟨rfl, rfl⟩ := Prod.mk.inj (Option.some.inj h)
            obtain rfl := List.isPrefixOf?_eq_some_iff_append_eq.mp hkeyword
            obtain ⟨gap, hindent, hgap, hne, -, htext⟩ := explicitMarkup?_eq_some_iff.mp hmarkup
            exact ⟨gap, hindent, hgap, hne, by simpa using hfeed, htext⟩
  · intro h
    obtain ⟨gap, hindent, hgap, hne, hfeed, htext⟩ := h
    have hbody : StartsOutsideGap (keyword ++ arguments) := fun c hc => by cases hc; rfl
    have hkeyword : keyword.isPrefixOf? (keyword ++ arguments) = some arguments :=
      List.isPrefixOf?_eq_some_iff_append_eq.mpr rfl
    rw [explicitMarkup?_eq_some_iff.mpr ⟨gap, hindent, hgap, hne, hbody, htext⟩]
    simp [hkeyword, hfeed]

/-! ## §4. Parsed lines. -/

section Parse

variable {document : Path} {number : Nat} {line : Text} {directive : Directive}

/-- A line is no directive if and only if it is no directive line. -/
theorem parse_eq_ok_none_iff : parse document number line = .ok none ↔ match? line = none := by
  unfold parse
  constructor
  · intro h
    split at h
    case h_1 hmatch => exact hmatch
    case h_2 => split at h <;> exact nomatch h
  · intro h
    rw [h]

/-- A directive is a directive line with exactly one word behind the keyword. -/
theorem parse_eq_ok_some_iff :
    parse document number line = .ok (some directive) ↔
      ∃ arguments, match? line = some (directive.indent, arguments) ∧
        Text.words arguments = [directive.argument] ∧ directive.line = number := by
  unfold parse
  constructor
  · intro h
    split at h
    case h_1 => exact nomatch h
    case h_2 indent arguments hmatch =>
      split at h
      case h_1 => exact nomatch h
      case h_2 argument hwords =>
        obtain rfl := Option.some.inj (Except.ok.inj h)
        exact ⟨arguments, hmatch, hwords, rfl⟩
      case h_3 => exact nomatch h
  · intro h
    obtain ⟨arguments, hmatch, hwords, rfl⟩ := h
    rw [hmatch]
    simp only [hwords]

/-- A fault is a directive line with no word behind the keyword, or with more than one. -/
theorem parse_eq_error_iff {error : DirectiveError} :
    parse document number line = .error error ↔
      ∃ indent arguments, match? line = some (indent, arguments) ∧
        (Text.words arguments = [] ∧ error = ⟨document, number, .missingArgument⟩ ∨
          2 ≤ (Text.words arguments).length ∧ error = ⟨document, number, .tooManyArguments⟩) := by
  unfold parse
  constructor
  · intro h
    split at h
    case h_1 => exact nomatch h
    case h_2 indent arguments hmatch =>
      refine ⟨indent, arguments, hmatch, ?_⟩
      split at h
      case h_1 hwords => exact Or.inl ⟨hwords, (Except.error.inj h).symm⟩
      case h_2 => exact nomatch h
      case h_3 hnil hone =>
        exact Or.inr ⟨Text.one_lt_length_of_ne hnil hone, (Except.error.inj h).symm⟩
  · intro h
    obtain ⟨indent, arguments, hmatch, hfault⟩ := h
    rw [hmatch]
    rcases hfault with ⟨hwords, rfl⟩ | ⟨hlength, rfl⟩
    · simp only [hwords]
    · simp only
      split
      case h_1 hwords => simp [hwords] at hlength
      case h_2 argument hwords => simp [hwords] at hlength
      case h_3 => rfl

end Parse

end YamlDocs.Directive
