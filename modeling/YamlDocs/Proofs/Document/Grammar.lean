/-
  YamlDocs.Proofs.Document.Grammar
  ────────────────────────────────
  **THE GRAMMAR OF DIRECTIVE LINES.**

      line       ::=  indent ".." gap "autoyaml::" arguments
      indent     ::=  (space | tab)*
      gap        ::=  (space | tab)+
      arguments  ::=  any characters but line feeds

  A `DirectiveLine` is a line with its parts.  A text is such a line in at
  most one way (`DirectiveLine.text_injective`), and the reader of directive
  lines finds these parts (`match?_eq_some_iff_parts`).  In the arguments, and
  only there, white space is the Unicode property; how many words they hold
  decides between the outcomes of a directive line, and every other text is
  no directive (`parse_accepts_grammar`).
-/
import YamlDocs.Proofs.Document.Markup
import YamlDocs.Proofs.Text.Trim

namespace YamlDocs

/-! ## §1. Lines with their parts. -/

/-- The parts of a directive line. -/
structure DirectiveLine where
  indent : Text
  gap : Text
  arguments : Text
  indent_blank : ∀ c ∈ indent, c = ' ' ∨ c = '\t'
  gap_blank : ∀ c ∈ gap, c = ' ' ∨ c = '\t'
  gap_ne_nil : gap ≠ []
  no_feed : '\n' ∉ arguments

/-- The parts, written one behind the other. -/
def DirectiveLine.text (line : DirectiveLine) : Text :=
  line.indent ++ "..".toList ++ line.gap ++ "autoyaml::".toList ++ line.arguments

namespace Directive

theorem isGap_iff {c : Char} : isGap c = true ↔ c = ' ' ∨ c = '\t' := by
  simp [isGap]

theorem isGap_indent (line : DirectiveLine) : IsGap line.indent :=
  fun c hc => isGap_iff.mpr (line.indent_blank c hc)

theorem isGap_gap (line : DirectiveLine) : IsGap line.gap :=
  fun c hc => isGap_iff.mpr (line.gap_blank c hc)

/-- **The reader finds the parts**: a text is read as an indent and arguments if and only if it is
a directive line with these parts. -/
theorem match?_eq_some_iff_parts {text indent arguments : Text} :
    match? text = some (indent, arguments) ↔
      ∃ line : DirectiveLine, line.text = text ∧ line.indent = indent ∧
        line.arguments = arguments := by
  rw [match?_eq_some_iff]
  constructor
  · intro h
    obtain ⟨gap, hindent, hgap, hne, hfeed, rfl⟩ := h
    refine ⟨⟨indent, gap, arguments, fun c hc => isGap_iff.mp (hindent c hc),
      fun c hc => isGap_iff.mp (hgap c hc), hne, hfeed⟩, ?_, rfl, rfl⟩
    show indent ++ opener ++ gap ++ keyword ++ arguments = _
    rw [List.append_assoc _ keyword]
  · intro h
    obtain ⟨line, rfl, rfl, rfl⟩ := h
    refine ⟨line.gap, isGap_indent line, isGap_gap line, line.gap_ne_nil, line.no_feed, ?_⟩
    show line.indent ++ opener ++ line.gap ++ keyword ++ line.arguments = _
    rw [List.append_assoc _ keyword]

theorem match?_text (line : DirectiveLine) : match? line.text = some (line.indent, line.arguments) :=
  match?_eq_some_iff_parts.mpr ⟨line, rfl, rfl, rfl⟩

end Directive

/-- **A text is a directive line in one way only.** -/
theorem DirectiveLine.text_injective {line other : DirectiveLine} (h : line.text = other.text) :
    line = other := by
  have hparts := Directive.match?_text line
  rw [h, Directive.match?_text other] at hparts
  obtain ⟨hindent, harguments⟩ := Prod.mk.inj (Option.some.inj hparts)
  obtain ⟨indent, gap, arguments⟩ := line
  obtain ⟨indent', gap', arguments'⟩ := other
  obtain rfl : indent' = indent := hindent
  obtain rfl : arguments' = arguments := harguments
  -- The gap is what stands between two known parts.
  have hgap : gap = gap' := by
    have hrest := List.append_cancel_right (List.append_cancel_right h)
    exact List.append_cancel_left hrest
  rw [DirectiveLine.mk.injEq]
  exact ⟨rfl, hgap, rfl⟩

/-! ## §2. Outcomes. -/

namespace Directive

open Text (HasWords IsWord)

variable {document : Path} {number : Nat} {text : Text} {directive : Directive}

/-- No directive is found where there is no directive line, and only there. -/
theorem parse_eq_ok_none_iff_line :
    parse document number text = .ok none ↔ ¬ ∃ line : DirectiveLine, line.text = text := by
  rw [parse_eq_ok_none_iff, Option.eq_none_iff_forall_ne_some, not_exists]
  constructor
  · rintro hnone line rfl
    exact hnone _ (match?_text line)
  · intro hnone found hmatch
    obtain ⟨line, htext, -⟩ := match?_eq_some_iff_parts.mp hmatch
    exact hnone line htext

/-- A directive is a directive line whose arguments hold one word. -/
theorem parse_eq_ok_some_iff_line :
    parse document number text = .ok (some directive) ↔
      ∃ line : DirectiveLine, line.text = text ∧ HasWords line.arguments [directive.argument] ∧
        directive.indent = line.indent ∧ directive.line = number := by
  rw [parse_eq_ok_some_iff]
  constructor
  · intro h
    obtain ⟨arguments, hmatch, hwords, hnumber⟩ := h
    obtain ⟨line, htext, hindent, rfl⟩ := match?_eq_some_iff_parts.mp hmatch
    exact ⟨line, htext, Text.words_eq_iff.mp hwords, hindent.symm, hnumber⟩
  · intro h
    obtain ⟨line, htext, hwords, hindent, hnumber⟩ := h
    refine ⟨line.arguments, ?_, Text.words_eq_iff.mpr hwords, hnumber⟩
    exact match?_eq_some_iff_parts.mpr ⟨line, htext, hindent.symm, rfl⟩

/-- A fault is a directive line whose arguments hold no word, or more than one. -/
theorem parse_eq_error_iff_line {error : DirectiveError} :
    parse document number text = .error error ↔
      ∃ (line : DirectiveLine) (found : List Text), line.text = text ∧
        HasWords line.arguments found ∧
        (found = [] ∧ error = ⟨document, number, .missingArgument⟩ ∨
          2 ≤ found.length ∧ error = ⟨document, number, .tooManyArguments⟩) := by
  rw [parse_eq_error_iff]
  constructor
  · intro h
    obtain ⟨indent, arguments, hmatch, hfault⟩ := h
    obtain ⟨line, htext, -, rfl⟩ := match?_eq_some_iff_parts.mp hmatch
    exact ⟨line, _, htext, Text.words_eq_iff.mp rfl, hfault⟩
  · intro h
    obtain ⟨line, found, htext, hwords, hfault⟩ := h
    obtain rfl := Text.words_eq_iff.mpr hwords
    exact ⟨line.indent, line.arguments, match?_eq_some_iff_parts.mpr ⟨line, htext, rfl, rfl⟩, hfault⟩

/-! ## §3. Printed directives. -/

/-- White space around a word leaves one word. -/
theorem hasWords_around {before word after : Text} (hbefore : ∀ c ∈ before, Text.isBlank c = true)
    (hword : IsWord word) (hafter : ∀ c ∈ after, Text.isBlank c = true) :
    HasWords (before ++ word ++ after) [word] :=
  .word before word after [] hbefore hword (fun c hc => hafter c (List.mem_of_head? hc))
    (.blank after hafter)

/-- **What is printed is parsed**: a directive on a line of its own, with white space other than a
line feed behind it. -/
theorem parse_printed {indent argument blanks : Text}
    (hindent : ∀ c ∈ indent, c = ' ' ∨ c = '\t') (hargument : IsWord argument)
    (hblanks : ∀ c ∈ blanks, Text.isBlank c = true) (hfeed : '\n' ∉ blanks) :
    parse document number (indent ++ ".. autoyaml:: ".toList ++ argument ++ blanks) =
      .ok (some ⟨indent, argument, number⟩) := by
  -- A line feed is white space, so no word holds one.
  have hword : '\n' ∉ argument := by
    intro hmem
    have hblank : Text.isBlank '\n' = true := by decide
    rw [hargument.unbroken '\n' hmem] at hblank
    cases hblank
  let line : DirectiveLine :=
    { indent, gap := [' '], arguments := [' '] ++ argument ++ blanks, indent_blank := hindent
      gap_blank := by simp
      gap_ne_nil := List.cons_ne_nil _ _
      no_feed := by simp [hword, hfeed] }
  refine parse_eq_ok_some_iff_line.mpr ⟨line, ?_, ?_, rfl, rfl⟩
  · show indent ++ "..".toList ++ [' '] ++ "autoyaml::".toList ++ ([' '] ++ argument ++ blanks) = _
    simp
  · have hspace : ∀ c ∈ [' '], Text.isBlank c = true := List.forall_mem_singleton.mpr (by decide)
    exact hasWords_around hspace hargument hblanks

/-! ## §4. The grammar. -/

/-- **Parsing accepts exactly the grammar.** A text is a directive line in at most one way, and the
reader finds its parts. It is parsed as no directive if it is no directive line; otherwise its
arguments decide: without a word and with two or more it is refused, with one this is the argument,
and the indent and the number are those of the line. There is no other outcome. A directive that is
printed, with white space other than a line feed behind it, is parsed as this directive. -/
theorem parse_accepts_grammar (document : Path) (number : Nat) (text : Text) :
    (∀ line other : DirectiveLine, line.text = text → other.text = text → line = other) ∧
    (∀ indent arguments, match? text = some (indent, arguments) ↔
      ∃ line : DirectiveLine, line.text = text ∧ line.indent = indent ∧
        line.arguments = arguments) ∧
    (parse document number text = .ok none ↔ ¬ ∃ line : DirectiveLine, line.text = text) ∧
    (parse document number text = .error ⟨document, number, .missingArgument⟩ ↔
      ∃ line : DirectiveLine, line.text = text ∧ HasWords line.arguments []) ∧
    (parse document number text = .error ⟨document, number, .tooManyArguments⟩ ↔
      ∃ (line : DirectiveLine) (found : List Text), line.text = text ∧
        HasWords line.arguments found ∧ 2 ≤ found.length) ∧
    (∀ directive, parse document number text = .ok (some directive) ↔
      ∃ line : DirectiveLine, line.text = text ∧ HasWords line.arguments [directive.argument] ∧
        directive.indent = line.indent ∧ directive.line = number) ∧
    (∀ error, parse document number text = .error error →
      error = ⟨document, number, .missingArgument⟩ ∨
        error = ⟨document, number, .tooManyArguments⟩) ∧
    ∀ indent argument blanks : Text, (∀ c ∈ indent, c = ' ' ∨ c = '\t') → IsWord argument →
      (∀ c ∈ blanks, Text.isBlank c = true) → '\n' ∉ blanks →
      parse document number (indent ++ ".. autoyaml:: ".toList ++ argument ++ blanks) =
        .ok (some ⟨indent, argument, number⟩) := by
  refine ⟨?_, fun _ _ => match?_eq_some_iff_parts, parse_eq_ok_none_iff_line, ?_, ?_,
    fun _ => parse_eq_ok_some_iff_line, ?_, fun _ _ _ => parse_printed⟩
  · intro line other hline hother
    exact DirectiveLine.text_injective (hline.trans hother.symm)
  · rw [parse_eq_error_iff_line]
    constructor
    · rintro ⟨line, found, htext, hwords, ⟨rfl, -⟩ | ⟨-, herror⟩⟩
      · exact ⟨line, htext, hwords⟩
      · simp at herror
    · rintro ⟨line, htext, hwords⟩
      exact ⟨line, [], htext, hwords, Or.inl ⟨rfl, rfl⟩⟩
  · rw [parse_eq_error_iff_line]
    constructor
    · rintro ⟨line, found, htext, hwords, ⟨-, herror⟩ | ⟨hlength, -⟩⟩
      · simp at herror
      · exact ⟨line, found, htext, hwords, hlength⟩
    · rintro ⟨line, found, htext, hwords, hlength⟩
      exact ⟨line, found, htext, hwords, Or.inr ⟨hlength, rfl⟩⟩
  · intro error herror
    obtain ⟨line, found, -, -, ⟨-, hmissing⟩ | ⟨-, hmany⟩⟩ := parse_eq_error_iff_line.mp herror
    · exact Or.inl hmissing
    · exact Or.inr hmany

/-- A directive line of one way only, an argument that holds dots and colons, with a line separator
behind it, and an argument that touches the colons. -/
theorem parse_accepts_grammar_samples :
    (∀ line other : DirectiveLine, line.text = "\t..  autoyaml:: a b".toList →
      other.text = "\t..  autoyaml:: a b".toList → line = other) ∧
    parse (.ofText "index".toList) 3 " \t.. autoyaml:: ../a::b.yaml\u2028".toList =
      .ok (some ⟨[' ', '\t'], "../a::b.yaml".toList, 3⟩) ∧
    (∃ line : DirectiveLine, line.text = "..\tautoyaml::a.yaml".toList ∧
      HasWords line.arguments ["a.yaml".toList]) ∧
    ∃ line : DirectiveLine, line.text = ".. autoyaml:: \t".toList ∧ HasWords line.arguments [] := by
  obtain ⟨hunique, -⟩ :=
    parse_accepts_grammar (.ofText "index".toList) 1 "\t..  autoyaml:: a b".toList
  obtain ⟨-, -, -, -, -, -, -, hprinted⟩ := parse_accepts_grammar (.ofText "index".toList) 3 []
  obtain ⟨-, -, -, -, -, hfound, -⟩ :=
    parse_accepts_grammar (.ofText "index".toList) 1 "..\tautoyaml::a.yaml".toList
  obtain ⟨-, -, -, hmissing, -⟩ :=
    parse_accepts_grammar (.ofText "index".toList) 1 ".. autoyaml:: \t".toList
  refine ⟨hunique, ?_, ?_, hmissing.mp (by decide)⟩
  · have hblanks : ∀ c ∈ ['\u2028'], Text.isBlank c = true :=
      List.forall_mem_singleton.mpr (by decide)
    exact hprinted [' ', '\t'] "../a::b.yaml".toList ['\u2028'] (by simp) (by decide) hblanks
      (by decide)
  · obtain ⟨line, htext, hwords, -⟩ := (hfound ⟨[], "a.yaml".toList, 1⟩).mp (by decide)
    exact ⟨line, htext, hwords⟩

end Directive

end YamlDocs
