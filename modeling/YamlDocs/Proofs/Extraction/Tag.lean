/-
  YamlDocs.Proofs.Extraction.Tag
  ────────────────────────────────
  **THE TAG FORMAT IS UNAMBIGUOUS.**

  Nothing in a tagged line is escaped, and the printed path may hold any
  character.  Still a line is read off the front of the output, part by part,
  if the path is known:

      PATH   the same in every line
      :LINE  digits up to the first other character
      <KIND> the name up to the first `>`, which no name of a kind holds
      text   what stands before the line feed: nothing for the empty text, a
             space and the text for any other

  (`tagLine_append_inj`).  The texts of a documentation hold no line feed, so
  its tagged lines give it back, entry by entry (`tag_is_unambiguous`).
-/
import YamlDocs.Extraction.Format
import YamlDocs.Proofs.Extraction.Break
import YamlDocs.Proofs.Text.Numeral

namespace YamlDocs

/-! ## §1. One line. -/

theorem LineKind.closing_notMem_text (kind : LineKind) : '>' ∉ kind.text := by
  cases kind <;> decide

/-- What stands behind the kind: nothing for an empty text, otherwise a space and the text. -/
def taggedText (text : Text) : Text := if text = [] then [] else ' ' :: text

theorem taggedText_injective {text other : Text} (h : taggedText text = taggedText other) :
    text = other := by
  unfold taggedText at h
  split at h
  case isTrue hempty =>
    split at h
    case isTrue hempty' => rw [hempty, hempty']
    case isFalse => cases h
  case isFalse =>
    split at h
    case isTrue => cases h
    case isFalse => exact (List.cons.inj h).2

theorem feed_notMem_taggedText {text : Text} (h : '\n' ∉ text) : '\n' ∉ taggedText text := by
  unfold taggedText
  split
  case isTrue => exact List.not_mem_nil
  case isFalse =>
    rw [List.mem_cons, not_or]
    exact ⟨by decide, h⟩

theorem tagLine_eq (entry : Entry) :
    Format.tagLine entry = entry.source.display ++ (':' :: (Text.ofNat entry.line ++
      (' ' :: '<' :: (entry.kind.text ++ ('>' :: taggedText entry.text))))) := by
  unfold Format.tagLine taggedText
  simp

/-- **A tagged line is read off the front**: with the same path in front of both, two outputs that
begin with a tagged line begin with the same one. -/
theorem tagLine_append_inj {entry other : Entry} {rest rest' : Text}
    (hsource : entry.source = other.source) (hentry : '\n' ∉ entry.text)
    (hother : '\n' ∉ other.text)
    (h : Format.tagLine entry ++ '\n' :: rest = Format.tagLine other ++ '\n' :: rest') :
    entry = other ∧ rest = rest' := by
  have hspace (text : Text) : Text.StartsOutsideDigits (' ' :: text) := by
    intro c hc
    obtain rfl : ' ' = c := Option.some.inj hc
    rfl
  simp only [tagLine_eq, List.append_assoc, List.cons_append, hsource] at h
  -- The path, then the line, then the kind, then the text.
  have hplace := (List.cons.inj (List.append_cancel_left h)).2
  obtain ⟨hline, hbehind⟩ := Text.ofNat_append_inj (hspace _) (hspace _) hplace
  have hkinds := (List.cons.inj (List.cons.inj hbehind).2).2
  obtain ⟨hkind, htexts⟩ := Text.append_cons_inj entry.kind.closing_notMem_text
    other.kind.closing_notMem_text hkinds
  obtain ⟨htext, hrest⟩ := Text.append_cons_inj (feed_notMem_taggedText hentry)
    (feed_notMem_taggedText hother) htexts
  obtain ⟨text, source, line, kind⟩ := entry
  obtain ⟨text', source', line', kind'⟩ := other
  simp only at hsource hline hkind htext
  rw [hsource, hline, LineKind.text_injective hkind, taggedText_injective htext]
  exact ⟨rfl, hrest⟩

/-! ## §2. Buffers. -/

/-- **Different buffers of one path have different tagged lines**, if no text in them holds a line
feed. -/
theorem toTag_injective {source : Path} {buffer other : Buffer}
    (hbuffer : ∀ entry ∈ buffer, entry.source = source ∧ '\n' ∉ entry.text)
    (hother : ∀ entry ∈ other, entry.source = source ∧ '\n' ∉ entry.text)
    (h : Format.toTag buffer = Format.toTag other) : buffer = other := by
  induction buffer generalizing other with
  | nil =>
      cases other with
      | nil => rfl
      | cons entry rest => simp [Format.toTag] at h
  | cons entry rest ih =>
      obtain ⟨⟨hsource, hfree⟩, hrest⟩ := List.forall_mem_cons.mp hbuffer
      cases other with
      | nil => simp [Format.toTag] at h
      | cons entry' rest' =>
          obtain ⟨⟨hsource', hfree'⟩, hrest'⟩ := List.forall_mem_cons.mp hother
          simp only [Format.toTag, List.flatMap_cons, List.append_assoc,
            List.singleton_append] at h
          obtain ⟨rfl, hlines⟩ := tagLine_append_inj (hsource.trans hsource'.symm) hfree hfree' h
          rw [ih hrest hrest' hlines]

/-! ## §3. The documentation of a text. -/

/-- **The tag format is unambiguous.** Two texts, with any markers, of which the documentation for
one path has the same tagged lines have the same documentation, entry by entry. -/
theorem tag_is_unambiguous (source : Path) (markers other : MarkerSet) (yaml yaml' : Text)
    (h : Format.serialize .tag (extract markers source yaml) =
      Format.serialize .tag (extract other source yaml')) :
    extract markers source yaml = extract other source yaml' := by
  have hentries (set : MarkerSet) (text : Text) :
      ∀ entry ∈ extract set source text, entry.source = source ∧ '\n' ∉ entry.text := by
    intro entry hentry
    refine ⟨source_of_mem_extract hentry, fun hfeed => ?_⟩
    exact absurd (breakFree_of_mem_extract hentry '\n' hfeed) (by decide)
  exact toTag_injective (hentries markers yaml) (hentries other yaml') (Except.ok.inj h)

/-- Markers without a hash sign. -/
def slashMarkers : MarkerSet :=
  ⟨['/', '/', '!'], ['/', '/', '-'], ['/', '/'], List.cons_ne_nil _ _, List.cons_ne_nil _ _,
    List.cons_ne_nil _ _⟩

/-- The path looks like a tagged line itself, and so does a text; an empty text and one of a space
follow. With other markers the same documentation is written with the same lines. -/
theorem tag_is_unambiguous_lookalike :
    Format.serialize .tag (extract .default (.ofText "a:1 <comment>\na".toList)
        "### a:1 <comment>\n#\n#  \n".toList) =
      Format.serialize .tag (extract slashMarkers (.ofText "a:1 <comment>\na".toList)
        "//! a:1 <comment>\r//\r\n//  ".toList) ∧
    extract .default (.ofText "a:1 <comment>\na".toList) "### a:1 <comment>\n#\n#  \n".toList =
      extract slashMarkers (.ofText "a:1 <comment>\na".toList)
        "//! a:1 <comment>\r//\r\n//  ".toList := by
  have htag : Format.serialize .tag (extract .default (.ofText "a:1 <comment>\na".toList)
        "### a:1 <comment>\n#\n#  \n".toList) =
      Format.serialize .tag (extract slashMarkers (.ofText "a:1 <comment>\na".toList)
        "//! a:1 <comment>\r//\r\n//  ".toList) := by
    decide +kernel
  exact ⟨htag, tag_is_unambiguous _ _ _ _ _ htag⟩

end YamlDocs
