/-
  YamlDocs.Proofs.Text.Offset
  ────────────────────────────────
  **CUTTING BY BYTE OFFSETS.**

  Lines and the texts of parameters are slices of a byte string, and the
  offsets are counted by hand: the loop that cuts into lines keeps the offset
  at which the current line starts, and a list of the characters ahead with
  their offsets.  Every offset it computes must be a boundary, or a slice is
  refused.

  The invariant (`Cursor.Fits`) says which characters the numbers stand for:
  what is passed, the current line and what is ahead make up the text, and
  the lines found so far are those of what is passed.  One turn keeps it or,
  at the end, gives all lines (`Cursor.Fits.turn_cons`, `Cursor.Fits.turn_end`).
  So no slice is ever refused, and the bytes are cut as the characters are
  (`offsets_are_valid`).
-/
import YamlDocs.Extraction.Scan
import YamlDocs.Proofs.Text.Decomposition
import YamlDocs.Proofs.Text.Slice
import Mathlib.Logic.Relation

namespace YamlDocs

open Utf8

/-! ## §1. Characters with their offsets. -/

/-- The characters of a text, each with the place of its first byte. -/
def charOffsets : Nat → Text → List (Nat × Char)
  | _, [] => []
  | offset, c :: rest => (offset, c) :: charOffsets (offset + (encodeChar c).length) rest

/-- The characters of a string with their offsets. -/
def charIndices (source : Bytes) : List (Nat × Char) :=
  match decode? source with
  | none => []
  | some text => charOffsets 0 text

theorem charIndices_encode (text : Text) : charIndices (encode text) = charOffsets 0 text := by
  unfold charIndices
  rw [decode?_eq_some_iff.mpr rfl]

theorem getElem?_charOffsets (text : Text) (offset n : Nat) :
    (charOffsets offset text)[n]? =
      text[n]?.map fun c => (offset + (encode (text.take n)).length, c) := by
  induction text generalizing offset n with
  | nil => rfl
  | cons c rest ih =>
      cases n with
      | zero => rfl
      | succ n =>
          have hlength : (encode (c :: rest.take n)).length =
              (encodeChar c).length + (encode (rest.take n)).length := List.length_append
          rw [charOffsets, List.getElem?_cons_succ, ih, List.getElem?_cons_succ,
            List.take_succ_cons, hlength]
          simp only [Nat.add_assoc]

/-! ## §2. The loop over the characters. -/

/-- Where the loop stands. -/
structure Cursor where
  /-- The offset of the current line. -/
  start : Nat
  /-- The characters that have not been looked at. -/
  ahead : List (Nat × Char)
  lines : List Bytes

/-- What one turn of the loop ends with. -/
inductive Turn where
  | more (cursor : Cursor)
  | done (lines : List Bytes)

/-- Behind a line break; a line feed directly behind a carriage return is passed over. -/
def Cursor.behindBreak (c : Char) (start : Nat) (ahead : List (Nat × Char)) (lines : List Bytes) :
    Cursor :=
  match c, ahead with
  | '\r', (_, '\n') :: ahead => ⟨start + 1, ahead, lines⟩
  | _, _ => ⟨start, ahead, lines⟩

/-- One turn of the loop; none if a slice is refused. -/
def Cursor.turn? (source : Bytes) (cursor : Cursor) : Option Turn :=
  match cursor.ahead with
  | [] =>
    if cursor.start < source.length then
      (slice? source cursor.start source.length).map fun line => .done (cursor.lines ++ [line])
    else some (.done cursor.lines)
  | (offset, c) :: ahead =>
    if Text.isLineBreak c then
      (slice? source cursor.start offset).map fun line =>
        .more (.behindBreak c (offset + c.utf8Size) ahead (cursor.lines ++ [line]))
    else some (.more { cursor with ahead })

/-- Where the loop starts. -/
def Cursor.first (source : Bytes) : Cursor := ⟨0, charIndices source, []⟩

theorem Cursor.length_behindBreak (c : Char) (start : Nat) (ahead : List (Nat × Char))
    (lines : List Bytes) : (behindBreak c start ahead lines).ahead.length ≤ ahead.length := by
  unfold behindBreak
  split
  · exact Nat.le_succ _
  · exact Nat.le_refl _

/-- Every turn that is not the last looks at a character. -/
theorem Cursor.length_of_turn?_more {source : Bytes} {cursor next : Cursor}
    (h : cursor.turn? source = some (.more next)) : next.ahead.length < cursor.ahead.length := by
  unfold turn? at h
  split at h
  case h_1 =>
    split at h
    case isTrue =>
      obtain ⟨line, -, heq⟩ := Option.map_eq_some_iff.mp h
      exact nomatch heq
    case isFalse => exact nomatch h
  case h_2 offset c ahead hahead =>
    rw [hahead, List.length_cons, Nat.lt_succ_iff]
    split at h
    case isTrue =>
      obtain ⟨line, -, heq⟩ := Option.map_eq_some_iff.mp h
      obtain rfl := Turn.more.inj heq
      exact length_behindBreak _ _ _ _
    case isFalse =>
      obtain rfl := Turn.more.inj (Option.some.inj h)
      exact Nat.le_refl _

/-- The lines that the loop finds from here on; none if a slice is refused. -/
def Cursor.run? (source : Bytes) (cursor : Cursor) : Option (List Bytes) :=
  match _ : cursor.turn? source with
  | none => none
  | some (.done lines) => some lines
  | some (.more next) => next.run? source
termination_by cursor.ahead.length
decreasing_by exact length_of_turn?_more ‹_›

/-- The lines of a string as slices of its bytes. -/
def cutLines? (source : Bytes) : Option (List Bytes) := (Cursor.first source).run? source

/-- The loop gets to a cursor. -/
def Cursor.Reached (source : Bytes) : Cursor → Prop :=
  Relation.ReflTransGen (fun cursor next => cursor.turn? source = some (.more next)) (first source)

/-! ## §3. What the numbers stand for. -/

/-- **The invariant**: what is passed, the current line and what is ahead make up the text. -/
structure Cursor.Fits (text : Text) (cursor : Cursor) (passed line rest : Text)
    (found : List Text) : Prop where
  spells : passed ++ line ++ rest = text
  breakFree : Text.BreakFree line
  start : cursor.start = (encode passed).length
  ahead : cursor.ahead = charOffsets (encode (passed ++ line)).length rest
  lines : cursor.lines = found.map encode
  found : Text.lines text = found ++ Text.lines (line ++ rest)

theorem Cursor.fits_first (text : Text) : (first (encode text)).Fits text [] [] text [] where
  spells := rfl
  breakFree := Text.breakFree_nil
  start := rfl
  ahead := charIndices_encode text
  lines := rfl
  found := rfl

section Turn

variable {text passed line rest : Text} {found : List Text} {cursor : Cursor} {c : Char}

namespace Cursor

/-- The current line is a slice up to the next character, or up to the end. -/
theorem Fits.slice (h : cursor.Fits text passed line rest found) :
    slice? (encode text) cursor.start (encode (passed ++ line)).length = some (encode line) := by
  rw [h.start, ← h.spells]
  exact slice?_encode passed line rest

/-- **At the end of the text** the current line is the last one, unless it is empty. -/
theorem Fits.turn_end (h : cursor.Fits text passed line [] found) :
    cursor.turn? (encode text) = some (.done ((Text.lines text).map encode)) := by
  have hspells : passed ++ line = text := by rw [← h.spells, List.append_nil]
  have hslice := h.slice
  have hlength : (encode text).length = cursor.start + (encode line).length := by
    rw [h.start, ← hspells, encode_append, List.length_append]
  have hfound := h.found
  rw [List.append_nil] at hfound
  rw [hspells] at hslice
  unfold turn?
  rw [h.ahead, h.lines]
  simp only [charOffsets]
  by_cases hline : line = []
  · subst hline
    have hend : (encode text).length = cursor.start := hlength
    rw [if_neg (by omega), hfound]
    simp [Text.lines]
  · have hpos : 0 < (encode line).length := List.length_pos_iff.mpr (encode_ne_nil hline)
    rw [if_pos (by omega), hslice, hfound, Text.lines_of_breakFree h.breakFree hline]
    simp

/-- **A character that is no break** belongs to the current line. -/
theorem Fits.turn_char (h : cursor.Fits text passed line (c :: rest) found)
    (hc : Text.isLineBreak c = false) :
    ∃ next, cursor.turn? (encode text) = some (.more next) ∧
      next.Fits text passed (line ++ [c]) rest found := by
  refine ⟨⟨cursor.start, charOffsets (encode (passed ++ (line ++ [c]))).length rest,
    cursor.lines⟩, ?_, ?_⟩
  · unfold turn?
    rw [h.ahead, ← List.append_assoc, length_encode_append_singleton]
    simp [charOffsets, hc]
  · refine ⟨?_, ?_, h.start, rfl, h.lines, ?_⟩
    · rw [← h.spells]
      simp
    · exact List.forall_mem_append.mpr ⟨h.breakFree, List.forall_mem_singleton.mpr hc⟩
    · rw [h.found]
      simp

/-- Behind a terminator a new line starts. -/
theorem Fits.behindTerminator {terminator : Text}
    (h : cursor.Fits text passed line (terminator ++ rest) found)
    (hterminator : Text.IsTerminator terminator)
    (hwhole : terminator = ['\r'] → rest.head? ≠ some '\n') {next : Cursor}
    (hstart : next.start = (encode (passed ++ line ++ terminator)).length)
    (hahead : next.ahead = charOffsets (encode (passed ++ line ++ terminator)).length rest)
    (hlines : next.lines = cursor.lines ++ [encode line]) :
    next.Fits text (passed ++ line ++ terminator) [] rest (found ++ [line]) where
  spells := by
    rw [← h.spells]
    simp
  breakFree := Text.breakFree_nil
  start := hstart
  ahead := by rw [List.append_nil, hahead]
  lines := by
    rw [hlines, h.lines]
    simp
  found := by
    rw [h.found, Text.lines_append_terminator h.breakFree hterminator hwhole]
    simp

/-- **A carriage return with its line feed** ends the current line. -/
theorem Fits.turn_pair (h : cursor.Fits text passed line ('\r' :: '\n' :: rest) found) :
    ∃ next, cursor.turn? (encode text) = some (.more next) ∧
      next.Fits text (passed ++ line ++ ['\r', '\n']) [] rest (found ++ [line]) := by
  have hlength : (encode (passed ++ line ++ ['\r', '\n'])).length =
      (encode (passed ++ line)).length + 1 + 1 := by
    rw [encode_append _ ['\r', '\n'], List.length_append]
    rfl
  refine ⟨⟨(encode (passed ++ line)).length + 1 + 1,
    charOffsets ((encode (passed ++ line)).length + 1 + 1) rest, cursor.lines ++ [encode line]⟩,
    ?_, ?_⟩
  · unfold turn?
    rw [h.ahead]
    simp only [charOffsets]
    rw [if_pos (by decide), h.slice]
    rfl
  · exact h.behindTerminator (Or.inl rfl) (fun hreturn => absurd hreturn (by decide))
      hlength.symm (by rw [hlength]) rfl

theorem behindBreak_of_single (hsingle : ∀ others : Text, c = '\r' → rest = '\n' :: others → False)
    (start offset : Nat) (lines : List Bytes) :
    behindBreak c start (charOffsets offset rest) lines =
      ⟨start, charOffsets offset rest, lines⟩ := by
  unfold behindBreak
  split
  case h_1 place others hahead =>
    -- Here a line feed is ahead of a carriage return.
    cases rest with
    | nil => exact nomatch hahead
    | cons d rest =>
        obtain ⟨hd, -⟩ := List.cons.inj hahead
        obtain rfl : d = '\n' := (Prod.mk.inj hd).2
        exact absurd rfl (hsingle rest rfl)
  case h_2 => rfl

/-- **Any other break** ends the current line. -/
theorem Fits.turn_break (h : cursor.Fits text passed line (c :: rest) found)
    (hc : Text.isLineBreak c = true)
    (hsingle : ∀ others : Text, c = '\r' → rest = '\n' :: others → False) :
    ∃ next, cursor.turn? (encode text) = some (.more next) ∧
      next.Fits text (passed ++ line ++ [c]) [] rest (found ++ [line]) := by
  have hlength := length_encode_append_singleton (passed ++ line) c
  refine ⟨⟨(encode (passed ++ line ++ [c])).length,
    charOffsets (encode (passed ++ line ++ [c])).length rest, cursor.lines ++ [encode line]⟩,
    ?_, ?_⟩
  · unfold turn?
    rw [h.ahead]
    simp only [charOffsets]
    rw [if_pos hc, h.slice, Option.map_some, behindBreak_of_single hsingle, ← length_encodeChar,
      hlength]
  · refine h.behindTerminator (Or.inr ⟨c, hc, rfl⟩) ?_ rfl rfl rfl
    intro hreturn hfeed
    obtain ⟨others, rfl⟩ := List.head?_eq_some_iff.mp hfeed
    exact hsingle others (List.cons.inj hreturn).1 rfl

/-- **One turn** looks at one character, or at two, and keeps the invariant. -/
theorem Fits.turn_cons (h : cursor.Fits text passed line (c :: rest) found) :
    ∃ next passed' line' rest' found', cursor.turn? (encode text) = some (.more next) ∧
      next.Fits text passed' line' rest' found' := by
  by_cases hc : Text.isLineBreak c = true
  · by_cases hpair : ∃ others, c = '\r' ∧ rest = '\n' :: others
    · obtain ⟨others, rfl, rfl⟩ := hpair
      obtain ⟨next, hturn, hnext⟩ := h.turn_pair
      exact ⟨next, _, _, _, _, hturn, hnext⟩
    · obtain ⟨next, hturn, hnext⟩ :=
        h.turn_break hc fun others hreturn hfeed => hpair ⟨others, hreturn, hfeed⟩
      exact ⟨next, _, _, _, _, hturn, hnext⟩
  · obtain ⟨next, hturn, hnext⟩ := h.turn_char (Bool.eq_false_iff.mpr hc)
    exact ⟨next, _, _, _, _, hturn, hnext⟩

/-! ## §4. The whole loop. -/

/-- The invariant holds wherever the loop gets to. -/
theorem Reached.exists_fits (h : Reached (encode text) cursor) :
    ∃ passed line rest found, cursor.Fits text passed line rest found := by
  induction h with
  | refl => exact ⟨[], [], text, [], fits_first text⟩
  | @tail cursor next _ hturn ih =>
      obtain ⟨passed, line, rest, found, hfits⟩ := ih
      cases rest with
      | nil =>
          rw [hfits.turn_end] at hturn
          exact nomatch hturn
      | cons c rest =>
          obtain ⟨other, passed', line', rest', found', hother, hnext⟩ := hfits.turn_cons
          obtain rfl : other = next := by simpa [hother] using hturn
          exact ⟨passed', line', rest', found', hnext⟩

/-- **From a cursor that fits, the loop ends with all lines.** -/
theorem Fits.run (h : cursor.Fits text passed line rest found) :
    cursor.run? (encode text) = some ((Text.lines text).map encode) := by
  -- On the turns: each of them but the last leaves fewer characters ahead.
  induction hsize : cursor.ahead.length using Nat.strongRecOn
    generalizing cursor passed line rest found with
  | ind size ih =>
      subst hsize
      rw [run?]
      cases rest with
      | nil =>
          split
          case h_1 hturn => simp [h.turn_end] at hturn
          case h_2 lines hturn => simpa [h.turn_end] using hturn.symm
          case h_3 next hturn => simp [h.turn_end] at hturn
      | cons c rest =>
          obtain ⟨other, passed', line', rest', found', hother, hnext⟩ := h.turn_cons
          split
          case h_1 hturn => simp [hother] at hturn
          case h_2 lines hturn => simp [hother] at hturn
          case h_3 next hturn =>
            obtain rfl : other = next := by simpa [hother] using hturn
            exact ih _ (length_of_turn?_more hother) hnext rfl

/-- The rest of the text from the current line on is a slice. -/
theorem Fits.slice_end (h : cursor.Fits text passed line rest found) :
    slice? (encode text) cursor.start (encode text).length = some (encode (line ++ rest)) := by
  rw [h.start, ← h.spells, List.append_assoc]
  exact slice?_encode_end passed (line ++ rest)

/-- No turn is refused. -/
theorem Fits.turn?_ne_none (h : cursor.Fits text passed line rest found) :
    cursor.turn? (encode text) ≠ none := by
  cases rest with
  | nil => simp [h.turn_end]
  | cons c rest =>
      obtain ⟨next, -, -, -, -, hturn, -⟩ := h.turn_cons
      simp [hturn]

end Cursor

end Turn

/-! ## §5. The text of a parameter. -/

/-- The bytes behind the first characters of a line; none if the slice is refused. -/
def stripParameter? (line : Bytes) : Option Bytes :=
  match (charIndices line)[parameterWidth]? with
  | none => some []
  | some (offset, _) => slice? line offset line.length

/-- From the place of a character on stands what is left without the characters in front of it. -/
theorem slice?_charOffsets {text : Text} {n offset : Nat} {c : Char}
    (h : (charOffsets 0 text)[n]? = some (offset, c)) :
    slice? (encode text) offset (encode text).length = some (encode (text.drop n)) := by
  rw [getElem?_charOffsets, Option.map_eq_some_iff] at h
  obtain ⟨_, -, heq⟩ := h
  obtain ⟨rfl, -⟩ := Prod.mk.inj heq
  have hslice := slice?_encode_end (text.take n) (text.drop n)
  rwa [List.take_append_drop, ← Nat.zero_add (encode (text.take n)).length] at hslice

theorem stripParameter?_encode (text : Text) :
    stripParameter? (encode text) = some (encode (text.drop parameterWidth)) := by
  unfold stripParameter?
  rw [charIndices_encode]
  split
  case h_1 hnone =>
    rw [getElem?_charOffsets, Option.map_eq_none_iff, List.getElem?_eq_none_iff] at hnone
    rw [List.drop_eq_nil_of_le hnone]
    rfl
  case h_2 offset c hsome => exact slice?_charOffsets hsome

/-- **All offsets are valid.** Wherever the loop over the characters of a string gets to, the
current line starts at a boundary, behind a number of whole characters, that is not behind the next
character nor behind the end. So both slices that a turn may take, up to the next character or up
to the end, go from a boundary to a later one; no turn is refused. The loop ends with the lines of the characters. If there is a
character behind the first two, its place is a boundary, and what is left from there on, or nothing
if there is none, is the string without its first two characters. -/
theorem offsets_are_valid {source : Bytes} {text : Text} (h : decode? source = some text) :
    (∀ cursor, Cursor.Reached source cursor →
      isBoundary source cursor.start = true ∧
      (∃ front behind, text = front ++ behind ∧ cursor.start = (encode front).length) ∧
      cursor.start ≤ source.length ∧
      (∀ offset c ahead, cursor.ahead = (offset, c) :: ahead →
        cursor.start ≤ offset ∧ IsSlice source cursor.start offset) ∧
      IsSlice source cursor.start source.length ∧ cursor.turn? source ≠ none) ∧
    cutLines? source = some ((Text.lines text).map encode) ∧
    (∀ offset c, (charIndices source)[parameterWidth]? = some (offset, c) →
      IsSlice source offset source.length) ∧
    stripParameter? source = some (encode (text.drop parameterWidth)) := by
  obtain rfl := decode?_eq_some_iff.mp h
  refine ⟨fun cursor hreached => ?_, (Cursor.fits_first text).run, fun offset c hplace => ?_,
    stripParameter?_encode text⟩
  · obtain ⟨passed, line, rest, found, hfits⟩ := hreached.exists_fits
    have hend := isSlice_of_eq_some hfits.slice_end
    refine ⟨hend.start_boundary, isBoundary_encode_iff.mp hend.start_boundary, hend.order, ?_, hend,
      hfits.turn?_ne_none⟩
    intro offset c ahead hahead
    have hslice : IsSlice (encode text) cursor.start offset := by
      rw [hfits.ahead] at hahead
      cases rest with
      | nil => exact nomatch hahead
      | cons d rest =>
          obtain ⟨hplace, -⟩ := List.cons.inj hahead
          obtain rfl := (Prod.mk.inj hplace).1
          exact isSlice_of_eq_some hfits.slice
    exact ⟨hslice.order, hslice⟩
  · rw [charIndices_encode] at hplace
    exact isSlice_of_eq_some (slice?_charOffsets hplace)

/-- A line separator of three bytes behind a character of two, and a carriage return with its line
feed at the end. -/
def wideText : Text := "é\u2028x\r\n".toList

/-- The second line starts behind five bytes and is one byte long. -/
theorem offsets_are_valid_wide :
    IsSlice (encode wideText) 5 6 ∧
      cutLines? (encode wideText) = some [encode ['é'], encode ['x']] ∧
      stripParameter? (encode wideText) = some (encode ['x', '\r', '\n']) := by
  have hdecode : decode? (encode wideText) = some wideText := decode?_eq_some_iff.mpr rfl
  obtain ⟨hloop, hlines, -, hstrip⟩ := offsets_are_valid hdecode
  let behind : List (Nat × Char) := [(6, '\r'), (7, '\n')]
  have hfirst : Cursor.first (encode wideText) =
      ⟨0, (0, 'é') :: (2, '\u2028') :: (5, 'x') :: behind, []⟩ := by
    unfold Cursor.first
    rw [charIndices_encode]
    rfl
  have hletter : Cursor.turn? (encode wideText)
      ⟨0, (0, 'é') :: (2, '\u2028') :: (5, 'x') :: behind, []⟩ =
        some (.more ⟨0, (2, '\u2028') :: (5, 'x') :: behind, []⟩) := rfl
  have hbreak : Cursor.turn? (encode wideText) ⟨0, (2, '\u2028') :: (5, 'x') :: behind, []⟩ =
      some (.more ⟨5, (5, 'x') :: behind, [encode ['é']]⟩) := rfl
  have hsecond : Cursor.turn? (encode wideText) ⟨5, (5, 'x') :: behind, [encode ['é']]⟩ =
      some (.more ⟨5, behind, [encode ['é']]⟩) := rfl
  have hreached : Cursor.Reached (encode wideText) ⟨5, behind, [encode ['é']]⟩ := by
    unfold Cursor.Reached
    rw [hfirst]
    exact .tail (.tail (.single hletter) hbreak) hsecond
  obtain ⟨-, -, -, hahead, -⟩ := hloop _ hreached
  exact ⟨(hahead 6 '\r' [(7, '\n')] rfl).2, hlines, hstrip⟩

end YamlDocs
