/-
  YamlDocs.Proofs.Document.Recognition
  ────────────────────────────────
  **TWO PATTERNS OF DIRECTIVE LINES.**

      directive  =  indent ".." gap "autoyaml::" arguments end
      markup     =  indent ".." gap name "::"

  Which lines are directives and which lines open literal blocks is decided
  by two patterns.  Their readings are what the readers of lines find
  (`read?_directivePattern_iff`, `read?_markupPattern_iff`): the indent and
  the gap have one length only, the arguments are all the rest, and the name,
  which prefers to be short, is the shortest one that two colons follow.

  So the name of a directive line is that of the directive, whatever its
  arguments are (`read?_markupPattern_text`).  Such a line opens no literal
  block (`opens_text`), and what follows is looked at as if it came first
  (`isLiteral_add_iff`, `expandLines_directive`).
-/
import YamlDocs.Proofs.Document.Grammar
import YamlDocs.Proofs.Document.Run
import YamlDocs.Proofs.Text.Pattern

namespace YamlDocs

open Text

namespace Directive

/-! ## §1. The patterns. -/

/-- Two colons behind a name. -/
def colons : Text := [':', ':']

/-- Explicit markup whose body begins with the given parts. -/
def markupWith (body : Pattern) : Pattern :=
  .run isGap 0 .longest :: .exactly opener :: .run isGap 1 .longest :: body

/-- The pattern of directive lines. -/
def directivePattern : Pattern :=
  markupWith [.exactly keyword, .run (· != '\n') 0 .longest, .finish]

/-- The pattern of explicit markup with a name. -/
def markupPattern : Pattern :=
  markupWith [.run isNameChar 1 .shortest, .exactly colons]

/-! ## §2. The front. -/

section Front

variable {rest : Pattern}

theorem ways_opener_eq_nil (c : Char) (left : Text) (hc : isGap c = true) :
    Pattern.ways (.exactly opener :: rest) (c :: left) = [] :=
  Pattern.ways_exactly_of_test (by decide) hc

/-- The front of explicit markup is read in one way only. -/
theorem ways_markupWith (hrest : ∀ c left, isGap c = true → rest.ways (c :: left) = [])
    {indent gap body : Text} (hindent : IsGap indent) (hgap : IsGap gap) (hne : gap ≠ [])
    (hbody : StartsOutsideGap body) :
    (markupWith rest).ways (indent ++ opener ++ gap ++ body) =
      (rest.ways body).map ([indent, opener, gap] ++ ·) := by
  have hopener : opener.isPrefixOf? (opener ++ (gap ++ body)) = some (gap ++ body) :=
    List.isPrefixOf?_eq_some_iff_append_eq.mpr rfl
  have hdots : ∀ c ∈ (opener ++ (gap ++ body)).head?, isGap c = false := by
    intro c hc
    cases hc
    rfl
  rw [List.append_assoc, List.append_assoc]
  unfold markupWith
  rw [Pattern.ways_run_append ways_opener_eq_nil hindent hdots (Nat.zero_le _),
    Pattern.ways_exactly, hopener]
  dsimp only
  rw [Pattern.ways_run_append hrest hgap hbody (List.length_pos_iff.mpr hne), List.map_map,
    List.map_map]
  rfl

/-- Where there is no explicit markup, its front is not read. -/
theorem ways_markupWith_eq_nil (hrest : ∀ c left, isGap c = true → rest.ways (c :: left) = [])
    {text : Text} (h : explicitMarkup? text = none) : (markupWith rest).ways text = [] := by
  unfold explicitMarkup? at h
  rw [List.span_eq_takeWhile_dropWhile] at h
  unfold markupWith
  rw [Pattern.ways_run ways_opener_eq_nil, if_pos (Nat.zero_le _), Pattern.ways_exactly]
  cases hdots : opener.isPrefixOf? (text.dropWhile isGap) with
  | none => rfl
  | some behind =>
      simp only [hdots, List.span_eq_takeWhile_dropWhile] at h
      dsimp only
      rw [Pattern.ways_run hrest]
      cases hgap : behind.takeWhile isGap with
      | nil => rfl
      | cons c gap =>
          rw [hgap] at h
          exact nomatch h

/-- A line is read as explicit markup in one way, or in none. -/
theorem read?_markupWith (hrest : ∀ c left, isGap c = true → rest.ways (c :: left) = [])
    {text : Text} {parts : List Text} :
    (markupWith rest).read? text = some parts ↔
      ∃ indent gap body others, IsGap indent ∧ IsGap gap ∧ gap ≠ [] ∧ StartsOutsideGap body ∧
        text = indent ++ opener ++ gap ++ body ∧ rest.read? body = some others ∧
        parts = [indent, opener, gap] ++ others := by
  unfold Pattern.read?
  constructor
  · intro h
    cases hmarkup : explicitMarkup? text with
    | none =>
        rw [ways_markupWith_eq_nil hrest hmarkup] at h
        exact nomatch h
    | some found =>
        obtain ⟨gap, hindent, hgap, hne, hbody, rfl⟩ := explicitMarkup?_eq_some_iff.mp hmarkup
        rw [ways_markupWith hrest hindent hgap hne hbody, List.head?_map,
          Option.map_eq_some_iff] at h
        obtain ⟨others, hothers, rfl⟩ := h
        exact ⟨found.1, gap, found.2, others, hindent, hgap, hne, hbody, rfl, hothers, rfl⟩
  · rintro ⟨indent, gap, body, others, hindent, hgap, hne, hbody, rfl, hothers, rfl⟩
    rw [ways_markupWith hrest hindent hgap hne hbody, List.head?_map, hothers]
    rfl

end Front

/-! ## §3. Directive lines. -/

theorem ways_keyword_eq_nil {rest : Pattern} (c : Char) (left : Text) (hc : isGap c = true) :
    Pattern.ways (.exactly keyword :: rest) (c :: left) = [] :=
  Pattern.ways_exactly_of_test (by decide) hc

/-- A whole line is read if it holds no line feed. -/
theorem ways_line (text : Text) :
    Pattern.ways [.run (· != '\n') 0 .longest, .finish] text =
      if '\n' ∈ text then [] else [[text, []]] := by
  rw [Pattern.ways_run (fun _ _ _ => rfl), if_pos (Nat.zero_le _)]
  by_cases hfeed : '\n' ∈ text
  · -- The run stops in front of the first line feed, where the text does not end.
    have hne : text.dropWhile (· != '\n') ≠ [] := by
      rw [Ne, List.dropWhile_eq_nil_iff]
      intro hall
      exact absurd (hall '\n' hfeed) (by decide)
    obtain ⟨c, left, hleft⟩ := List.exists_cons_of_ne_nil hne
    rw [hleft, if_pos hfeed]
    rfl
  · have hall : ∀ c ∈ text, (c != '\n') = true := fun c hc =>
      bne_iff_ne.mpr (ne_of_mem_of_not_mem hc hfeed)
    rw [List.dropWhile_eq_nil_iff.mpr hall, List.takeWhile_eq_self_iff.mpr hall, if_neg hfeed]
    rfl

/-- What stands behind the keyword is read if it holds no line feed. -/
theorem read?_arguments_iff {text : Text} {parts : List Text} :
    Pattern.read? [.exactly keyword, .run (· != '\n') 0 .longest, .finish] text = some parts ↔
      ∃ arguments, text = keyword ++ arguments ∧ '\n' ∉ arguments ∧
        parts = [keyword, arguments, []] := by
  unfold Pattern.read?
  rw [Pattern.ways_exactly]
  constructor
  · intro h
    split at h
    case h_1 => exact nomatch h
    case h_2 arguments hkeyword =>
      rw [ways_line] at h
      split at h
      case isTrue => exact nomatch h
      case isFalse hfeed =>
        exact ⟨arguments, (List.isPrefixOf?_eq_some_iff_append_eq.mp hkeyword).symm, hfeed,
          (Option.some.inj h).symm⟩
  · rintro ⟨arguments, rfl, hfeed, rfl⟩
    rw [List.isPrefixOf?_eq_some_iff_append_eq.mpr rfl]
    dsimp only
    rw [ways_line, if_neg hfeed]
    rfl

/-- **Readings of directive lines**: their parts. -/
theorem read?_directivePattern_iff {text : Text} {parts : List Text} :
    directivePattern.read? text = some parts ↔
      ∃ line : DirectiveLine, line.text = text ∧
        parts = [line.indent, opener, line.gap, keyword, line.arguments, []] := by
  unfold directivePattern
  rw [read?_markupWith ways_keyword_eq_nil]
  simp only [read?_arguments_iff]
  constructor
  · rintro ⟨indent, gap, body, others, hindent, hgap, hne, -, rfl, ⟨arguments, rfl, hfeed, rfl⟩, rfl⟩
    refine ⟨⟨indent, gap, arguments, fun c hc => isGap_iff.mp (hindent c hc),
      fun c hc => isGap_iff.mp (hgap c hc), hne, hfeed⟩, ?_, rfl⟩
    exact List.append_assoc _ _ _
  · rintro ⟨line, rfl, rfl⟩
    refine ⟨line.indent, line.gap, keyword ++ line.arguments, [keyword, line.arguments, []],
      isGap_indent line, isGap_gap line, line.gap_ne_nil, ?_, ?_,
      ⟨line.arguments, rfl, line.no_feed, rfl⟩, rfl⟩
    · intro c hc
      cases hc
      rfl
    · exact List.append_assoc _ _ _

/-! ## §4. Names. -/

/-- The text begins with a name and two colons. -/
structure IsName (name text : Text) : Prop where
  ne_nil : name ≠ []
  isNameChar : ∀ c ∈ name, isNameChar c = true
  colons : name ++ colons <+: text

/-- The shortest name that the text begins with. -/
structure IsShortestName (name text : Text) : Prop extends IsName name text where
  shortest : ∀ other, IsName other text → name.length ≤ other.length

section Name

variable {name text : Text} {c : Char}

theorem not_isName_nil : ¬ IsName name [] := fun h =>
  h.ne_nil (List.append_eq_nil_iff.mp (List.prefix_nil.mp h.colons)).1

theorem isName_cons_iff :
    IsName name (c :: text) ↔ isNameChar c = true ∧
      ∃ behind, name = c :: behind ∧ (behind = [] ∧ colons <+: text ∨ IsName behind text) := by
  constructor
  · rintro ⟨hne, hchars, hcolons⟩
    obtain ⟨d, behind, rfl⟩ := List.exists_cons_of_ne_nil hne
    obtain rfl := (List.cons_prefix_cons.mp hcolons).1
    refine ⟨hchars d List.mem_cons_self, behind, rfl, ?_⟩
    have hcolons : behind ++ colons <+: text := (List.cons_prefix_cons.mp hcolons).2
    by_cases hbehind : behind = []
    · subst hbehind
      exact Or.inl ⟨rfl, hcolons⟩
    · exact Or.inr ⟨hbehind, fun e he => hchars e (List.mem_cons_of_mem d he), hcolons⟩
  · rintro ⟨hc, behind, rfl, ⟨rfl, hcolons⟩ | ⟨-, hchars, hcolons⟩⟩
    · exact ⟨List.cons_ne_nil _ _, List.forall_mem_singleton.mpr hc,
        List.cons_prefix_cons.mpr ⟨rfl, hcolons⟩⟩
    · exact ⟨List.cons_ne_nil _ _, List.forall_mem_cons.mpr ⟨hc, hchars⟩,
        List.cons_prefix_cons.mpr ⟨rfl, hcolons⟩⟩

theorem isShortestName_singleton_iff (hcolons : colons <+: text) :
    IsShortestName name (c :: text) ↔ isNameChar c = true ∧ name = [c] := by
  constructor
  · intro h
    obtain ⟨hc, behind, rfl, -⟩ := isName_cons_iff.mp h.toIsName
    -- One character is a name already, so nothing stands behind it.
    have hlength := h.shortest [c] (isName_cons_iff.mpr ⟨hc, [], rfl, Or.inl ⟨rfl, hcolons⟩⟩)
    rw [List.length_cons, List.length_singleton] at hlength
    obtain rfl : behind = [] := List.length_eq_zero_iff.mp (by omega)
    exact ⟨hc, rfl⟩
  · rintro ⟨hc, rfl⟩
    refine ⟨isName_cons_iff.mpr ⟨hc, [], rfl, Or.inl ⟨rfl, hcolons⟩⟩, fun other hother => ?_⟩
    exact List.length_pos_iff.mpr hother.ne_nil

theorem isShortestName_cons_iff (hcolons : ¬ colons <+: text) :
    IsShortestName name (c :: text) ↔ isNameChar c = true ∧
      ∃ behind, IsShortestName behind text ∧ c :: behind = name := by
  have hcons : ∀ {name}, IsName name (c :: text) ↔ isNameChar c = true ∧
      ∃ behind, name = c :: behind ∧ IsName behind text := by
    intro name
    rw [isName_cons_iff]
    simp only [hcolons, and_false, false_or]
  constructor
  · intro h
    obtain ⟨hc, behind, rfl, hbehind⟩ := hcons.mp h.toIsName
    refine ⟨hc, behind, ⟨hbehind, fun other hother => ?_⟩, rfl⟩
    exact Nat.le_of_succ_le_succ (h.shortest (c :: other) (hcons.mpr ⟨hc, other, rfl, hother⟩))
  · rintro ⟨hc, behind, hbehind, rfl⟩
    refine ⟨hcons.mpr ⟨hc, behind, rfl, hbehind.toIsName⟩, fun other hother => ?_⟩
    obtain ⟨-, rest, rfl, hrest⟩ := hcons.mp hother
    exact Nat.succ_le_succ (hbehind.shortest rest hrest)

theorem shortestName?_cons :
    shortestName? (c :: text) =
      if Directive.isNameChar c then
        if colons <+: text then some [c] else (shortestName? text).map (c :: ·)
      else none := by
  rw [shortestName?]
  split
  case isFalse => rfl
  case isTrue => exact if_congr List.isPrefixOf_iff_prefix rfl rfl

/-- **The name that is found is the shortest one.** -/
theorem shortestName?_eq_some_iff : shortestName? text = some name ↔ IsShortestName name text := by
  induction text generalizing name with
  | nil => exact iff_of_false (fun h => nomatch h) fun h => not_isName_nil h.toIsName
  | cons c text ih =>
      rw [shortestName?_cons]
      by_cases hcolons : colons <+: text
      · rw [isShortestName_singleton_iff hcolons, if_pos hcolons]
        split
        case isTrue hc => simp [hc, eq_comm]
        case isFalse hc => simp [hc]
      · rw [isShortestName_cons_iff hcolons, if_neg hcolons]
        split
        case isTrue hc => simp [hc, ih]
        case isFalse hc => simp [hc]

theorem read?_colons :
    Pattern.read? [.exactly colons] text = if colons <+: text then some [colons] else none := by
  unfold Pattern.read?
  rw [Pattern.ways_exactly]
  by_cases hcolons : colons <+: text
  · obtain ⟨left, hleft⟩ := id hcolons
    rw [List.isPrefixOf?_eq_some_iff_append_eq.mpr hleft, if_pos hcolons]
    rfl
  · have hnone : colons.isPrefixOf? text = none := by
      rw [Option.eq_none_iff_forall_ne_some]
      intro left hleft
      exact hcolons ⟨left, List.isPrefixOf?_eq_some_iff_append_eq.mp hleft⟩
    rw [hnone, if_neg hcolons]
    rfl

/-- **A run that prefers to be short finds it.** -/
theorem read?_name_eq (text : Text) :
    Pattern.read? [.run Directive.isNameChar 1 .shortest, .exactly colons] text =
      (shortestName? text).map fun name => [name, colons] := by
  induction text with
  | nil => rfl
  | cons c text ih =>
      rw [Pattern.read?_shortest_cons, Pattern.read?_shortest, ih, read?_colons, shortestName?_cons]
      split
      case isFalse => rfl
      case isTrue =>
        split
        case isTrue => rfl
        case isFalse => cases shortestName? text <;> rfl

end Name

theorem isNameChar_eq_false_of_isGap {c : Char} (hc : isGap c = true) : isNameChar c = false := by
  rcases isGap_iff.mp hc with rfl | rfl <;> rfl

theorem ways_name_eq_nil {rest : Pattern} (c : Char) (left : Text) (hc : isGap c = true) :
    Pattern.ways (.run isNameChar 1 .shortest :: rest) (c :: left) = [] :=
  Pattern.ways_run_eq_nil (isNameChar_eq_false_of_isGap hc)

/-- A name ends the gap in front of it. -/
theorem IsName.startsOutsideGap {name text : Text} (h : IsName name text) :
    StartsOutsideGap text := by
  obtain ⟨c, behind, rfl⟩ := List.exists_cons_of_ne_nil h.ne_nil
  obtain ⟨rest, rfl⟩ := h.colons
  intro d hd
  cases hd
  rw [Bool.eq_false_iff]
  intro hgap
  have hname := h.isNameChar c List.mem_cons_self
  rw [isNameChar_eq_false_of_isGap hgap] at hname
  exact nomatch hname

/-- **Readings of explicit markup with a name**: the name is the shortest one. -/
theorem read?_markupPattern_iff {text : Text} {parts : List Text} :
    markupPattern.read? text = some parts ↔
      ∃ indent gap body name, IsGap indent ∧ IsGap gap ∧ gap ≠ [] ∧ IsShortestName name body ∧
        text = indent ++ opener ++ gap ++ body ∧ parts = [indent, opener, gap, name, colons] := by
  unfold markupPattern
  rw [read?_markupWith ways_name_eq_nil]
  simp only [read?_name_eq, Option.map_eq_some_iff, shortestName?_eq_some_iff]
  constructor
  · rintro ⟨indent, gap, body, _, hindent, hgap, hne, -, rfl, ⟨name, hname, rfl⟩, rfl⟩
    exact ⟨indent, gap, body, name, hindent, hgap, hne, hname, rfl, rfl⟩
  · rintro ⟨indent, gap, body, name, hindent, hgap, hne, hname, rfl, rfl⟩
    exact ⟨indent, gap, body, _, hindent, hgap, hne, hname.startsOutsideGap, rfl,
      ⟨name, hname, rfl⟩, rfl⟩

theorem name?_eq_some_iff {text name : Text} :
    name? text = some name ↔
      ∃ indent gap body, IsGap indent ∧ IsGap gap ∧ gap ≠ [] ∧ IsShortestName name body ∧
        text = indent ++ opener ++ gap ++ body := by
  unfold name?
  constructor
  · intro h
    split at h
    case h_1 => exact nomatch h
    case h_2 indent body hmarkup =>
      obtain ⟨gap, hindent, hgap, hne, -, htext⟩ := explicitMarkup?_eq_some_iff.mp hmarkup
      exact ⟨indent, gap, body, hindent, hgap, hne, shortestName?_eq_some_iff.mp h, htext⟩
  · rintro ⟨indent, gap, body, hindent, hgap, hne, hname, htext⟩
    rw [explicitMarkup?_eq_some_iff.mpr
      ⟨gap, hindent, hgap, hne, hname.startsOutsideGap, htext⟩]
    exact shortestName?_eq_some_iff.mpr hname

/-! ## §5. The names of directive lines. -/

/-- What a directive line has behind its gap begins with the name of the directive, and with no
shorter one. -/
theorem isShortestName_keyword (arguments : Text) :
    IsShortestName "autoyaml".toList (keyword ++ arguments) := by
  rw [← shortestName?_eq_some_iff]
  rfl

/-- **The name of a directive line** is that of the directive, whatever its arguments are. -/
theorem read?_markupPattern_text (line : DirectiveLine) :
    markupPattern.read? line.text =
      some [line.indent, opener, line.gap, "autoyaml".toList, colons] :=
  read?_markupPattern_iff.mpr ⟨line.indent, line.gap, keyword ++ line.arguments, _,
    isGap_indent line, isGap_gap line, line.gap_ne_nil, isShortestName_keyword line.arguments,
    List.append_assoc _ _ _, rfl⟩

theorem name?_eq_some_iff_read? {text name : Text} :
    name? text = some name ↔
      ∃ indent gap, markupPattern.read? text = some [indent, opener, gap, name, colons] := by
  simp only [name?_eq_some_iff, read?_markupPattern_iff]
  constructor
  · rintro ⟨indent, gap, body, hindent, hgap, hne, hname, htext⟩
    exact ⟨indent, gap, indent, gap, body, name, hindent, hgap, hne, hname, htext, rfl⟩
  · rintro ⟨_, _, indent, gap, body, other, hindent, hgap, hne, hname, htext, hparts⟩
    simp only [List.cons.injEq] at hparts
    obtain ⟨-, -, -, rfl, -⟩ := hparts
    exact ⟨indent, gap, body, hindent, hgap, hne, hname, htext⟩

theorem match?_eq_some_iff_read? {text indent arguments : Text} :
    match? text = some (indent, arguments) ↔
      ∃ gap, directivePattern.read? text =
        some [indent, opener, gap, keyword, arguments, []] := by
  simp only [match?_eq_some_iff_parts, read?_directivePattern_iff]
  constructor
  · rintro ⟨line, rfl, rfl, rfl⟩
    exact ⟨line.gap, line, rfl, rfl⟩
  · rintro ⟨gap, line, rfl, hparts⟩
    simp only [List.cons.injEq] at hparts
    obtain ⟨rfl, -, -, -, rfl, -⟩ := hparts
    exact ⟨line, rfl, rfl, rfl⟩

/-- A directive line opens no literal block. -/
theorem opens_text (line : DirectiveLine) : LiteralBlock.opens line.text = false := by
  have hname : name? line.text = some "autoyaml".toList :=
    name?_eq_some_iff_read?.mpr ⟨_, _, read?_markupPattern_text line⟩
  unfold LiteralBlock.opens
  rw [hname]
  rfl

theorem after_text (line : DirectiveLine) : LiteralBlock.after line.text = {} := by
  unfold LiteralBlock.after
  rw [opens_text, if_neg Bool.false_ne_true]

/-! ## §6. What stands behind a directive line. -/

/-- The literal block that is open behind some lines is that of the lines since no block was
open. -/
theorem blockBefore_add {lines : List Text} {i : Nat} (hclosed : blockBefore lines i = {})
    (k : Nat) : blockBefore lines (i + k) = blockBefore (lines.drop i) k := by
  unfold blockBefore at hclosed ⊢
  rw [List.take_add, List.foldl_append, hclosed]

/-- Lines behind a place where no literal block is open are literal or not as if they came
first. -/
theorem isLiteral_add_iff {lines : List Text} {i k : Nat} {line : Text}
    (hclosed : blockBefore lines i = {}) (hline : lines[i + k]? = some line) :
    IsLiteral lines (i + k) ↔ IsLiteral (lines.drop i) k := by
  have hdrop : (lines.drop i)[k]? = some line := by rw [List.getElem?_drop, hline]
  rw [← contains_blockBefore_iff hline, ← contains_blockBefore_iff hdrop, blockBefore_add hclosed]

/-- No literal block is open behind a directive line that is not literal. -/
theorem blockBefore_succ_of_directive {lines : List Text} {i : Nat} {line : DirectiveLine}
    (hline : lines[i]? = some line.text) (hliteral : ¬ IsLiteral lines i) :
    blockBefore lines (i + 1) = {} := by
  have hnext : (blockBefore lines i).next line.text = LiteralBlock.after line.text :=
    if_neg fun h => hliteral ((contains_blockBefore_iff hline).mp h)
  unfold blockBefore at hnext ⊢
  rw [foldl_take_succ _ _ hline, hnext, after_text]

/-- Behind a directive that is replaced, the expansion goes on without a literal block. -/
theorem expandLines_directive {files : FileView} {env env' : Environment} {document : Path}
    {block : LiteralBlock} {number : Nat} {text : Text} {directive : Directive} {buffer : Buffer}
    (rest : List Text) (hout : block.contains text = false)
    (hparse : parse document number text = .ok (some directive))
    (hrun : env.run files document directive = (env', .ok buffer)) :
    Environment.expandLines files document env block number (text :: rest) =
      Environment.prepend (directive.render buffer)
        (Environment.expandLines files document env' {} (number + 1) rest) := by
  obtain ⟨line, rfl, -⟩ := parse_eq_ok_some_iff_line.mp hparse
  rw [Environment.expandLines, if_neg (Bool.eq_false_iff.mp hout), hparse]
  dsimp only
  rw [hrun]
  dsimp only
  rw [after_text]

/-- **The two recognisers agree.** The readers of lines find the preferred readings of the two
patterns. The name in explicit markup is the shortest run of name characters behind the gap that
two colons follow. A line that is read as a directive, whatever its indent, its gap and its
arguments are, is read as explicit markup with the name of the directive and opens no literal
block. Behind such a line that is not literal no literal block is open, and which lines are literal
there is decided as if they came first; where it is replaced, the expansion goes on with the next
line and without a literal block. -/
theorem recognisers_agree (text : Text) :
    (∀ indent arguments, match? text = some (indent, arguments) ↔
      ∃ gap, directivePattern.read? text =
        some [indent, opener, gap, keyword, arguments, []]) ∧
    (∀ name, name? text = some name ↔
      ∃ indent gap, markupPattern.read? text = some [indent, opener, gap, name, colons]) ∧
    (∀ parts, markupPattern.read? text = some parts ↔
      ∃ indent gap body name, IsGap indent ∧ IsGap gap ∧ gap ≠ [] ∧ IsShortestName name body ∧
        text = indent ++ opener ++ gap ++ body ∧ parts = [indent, opener, gap, name, colons]) ∧
    (∀ parts, directivePattern.read? text = some parts →
      ∃ line : DirectiveLine, line.text = text ∧
        parts = [line.indent, opener, line.gap, keyword, line.arguments, []] ∧
        markupPattern.read? text =
          some [line.indent, opener, line.gap, "autoyaml".toList, colons] ∧
        LiteralBlock.opens text = false) ∧
    (∀ lines i parts, directivePattern.read? text = some parts → lines[i]? = some text →
      ¬ IsLiteral lines i →
      blockBefore lines (i + 1) = {} ∧
        ∀ k line, lines[i + 1 + k]? = some line →
          (IsLiteral lines (i + 1 + k) ↔ IsLiteral (lines.drop (i + 1)) k)) ∧
    ∀ files document env env' block number directive buffer rest, block.contains text = false →
      parse document number text = .ok (some directive) →
      Environment.run files env document directive = (env', .ok buffer) →
      Environment.expandLines files document env block number (text :: rest) =
        Environment.prepend (directive.render buffer)
          (Environment.expandLines files document env' {} (number + 1) rest) := by
  refine ⟨fun _ _ => match?_eq_some_iff_read?, fun _ => name?_eq_some_iff_read?,
    fun _ => read?_markupPattern_iff, ?_, ?_, fun _ _ _ _ _ _ _ _ rest => expandLines_directive rest⟩
  · intro parts hread
    obtain ⟨line, rfl, rfl⟩ := read?_directivePattern_iff.mp hread
    exact ⟨line, rfl, rfl, read?_markupPattern_text line, opens_text line⟩
  · intro lines i parts hread hline hliteral
    obtain ⟨line, rfl, -⟩ := read?_directivePattern_iff.mp hread
    have hclosed := blockBefore_succ_of_directive hline hliteral
    exact ⟨hclosed, fun k _ => isLiteral_add_iff hclosed⟩

/-- A directive whose argument ends like the opener of a code block, behind a literal block and in
front of an indented line. -/
def lookalikeLines : List Text :=
  ["Note::".toList, "  literal".toList, "..  autoyaml:: a::code-block::".toList,
    "  after".toList]

/-- A file system in which every file is empty. -/
def emptyFiles : FileView := fun _ => .ok []

/-- The directive among the lines has its name, and the indented line behind it is not literal. -/
theorem recognisers_agree_lookalike :
    markupPattern.read? "..  autoyaml:: a::code-block::".toList =
      some [[], opener, "  ".toList, "autoyaml".toList, colons] ∧
    blockBefore lookalikeLines 3 = {} ∧ ¬ IsLiteral lookalikeLines 3 ∧
    ∀ env : Environment, (Environment.expandLines emptyFiles (.ofText "index".toList) env {} 3
      (lookalikeLines.drop 2)).2 = .ok ["  after".toList] := by
  obtain ⟨-, -, -, hreading, hbehind, hexpand⟩ :=
    recognisers_agree "..  autoyaml:: a::code-block::".toList
  have hread : directivePattern.read? "..  autoyaml:: a::code-block::".toList =
      some [[], opener, "  ".toList, keyword, " a::code-block::".toList, []] :=
    read?_directivePattern_iff.mpr
      ⟨⟨[], "  ".toList, " a::code-block::".toList, List.forall_mem_nil _, by simp,
        List.cons_ne_nil _ _, by decide⟩, rfl, rfl⟩
  have hout : ¬ IsLiteral lookalikeLines 2 := by
    rw [← contains_blockBefore_iff rfl]
    decide
  obtain ⟨hclosed, hliteral⟩ := hbehind lookalikeLines 2 _ hread rfl hout
  obtain ⟨line, -, hparts, hname, -⟩ := hreading _ hread
  simp only [List.cons.injEq] at hparts
  obtain ⟨hindent, -, hgap, -⟩ := hparts
  rw [← hindent, ← hgap] at hname
  refine ⟨hname, hclosed, fun h => not_isLiteral_zero _ ((hliteral 0 _ rfl).mp h), fun env => ?_⟩
  have hrun : env.run emptyFiles (.ofText "index".toList) ⟨[], "a::code-block::".toList, 3⟩ =
      (env.record (env.resolve "a::code-block::".toList), .ok []) := rfl
  have hstep := hexpand emptyFiles (.ofText "index".toList) env _ {} 3 _ _ ["  after".toList] rfl
    (by decide) hrun
  exact congrArg Prod.snd hstep

end Directive

end YamlDocs
