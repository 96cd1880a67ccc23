/-
  YamlDocs.Proofs.Text.Slice
  ────────────────────────────────
  **SLICES OF UTF-8 BY BYTE OFFSETS.**

  An offset into the bytes of a text is a boundary if it is the end of the
  bytes or if no continuation byte stands there.  Of the bytes of a character
  just the first one is no continuation byte (`Form.exists_eq_cons`).  So the
  boundaries are the places between characters (`isBoundary_encode_iff`), and
  a slice from one place to a later one is the encoding of what stands there
  (`slice?_encode`).
-/
import YamlDocs.Proofs.Text.Utf8

namespace YamlDocs.Utf8

/-! ## §1. Boundaries and slices. -/

/-- Whether the bytes may be cut at an offset. -/
def isBoundary (bytes : Bytes) (offset : Nat) : Bool :=
  match bytes[offset]? with
  | some b => offset == 0 || !isContinuation b
  | none => offset == bytes.length

/-- The bytes from one offset to another; none if the offsets are not in order or not both
boundaries. -/
def slice? (bytes : Bytes) (start stop : Nat) : Option Bytes :=
  if start ≤ stop ∧ isBoundary bytes start = true ∧ isBoundary bytes stop = true then
    some ((bytes.take stop).drop start)
  else none

/-- A boundary lies within the bytes. -/
theorem le_length_of_isBoundary {bytes : Bytes} {offset : Nat}
    (h : isBoundary bytes offset = true) : offset ≤ bytes.length := by
  unfold isBoundary at h
  split at h
  case h_1 b hbyte => exact Nat.le_of_lt (List.getElem?_eq_some_iff.mp hbyte).1
  case h_2 => exact Nat.le_of_eq (beq_iff_eq.mp h)

/-- The offsets are in order, within the bytes and boundaries. -/
structure IsSlice (bytes : Bytes) (start stop : Nat) : Prop where
  order : start ≤ stop
  within : stop ≤ bytes.length
  start_boundary : isBoundary bytes start = true
  stop_boundary : isBoundary bytes stop = true

/-- A slice is refused unless its offsets are valid. -/
theorem slice?_ne_none_iff {bytes : Bytes} {start stop : Nat} :
    slice? bytes start stop ≠ none ↔ IsSlice bytes start stop := by
  unfold slice?
  split
  case isTrue h =>
    obtain ⟨horder, hstart, hstop⟩ := h
    exact iff_of_true (Option.some_ne_none _)
      ⟨horder, le_length_of_isBoundary hstop, hstart, hstop⟩
  case isFalse h =>
    exact iff_of_false (fun hsome => hsome rfl) fun hslice =>
      h ⟨hslice.order, hslice.start_boundary, hslice.stop_boundary⟩

theorem isSlice_of_eq_some {bytes part : Bytes} {start stop : Nat}
    (h : slice? bytes start stop = some part) : IsSlice bytes start stop :=
  slice?_ne_none_iff.mp (by simp [h])

/-! ## §2. The bytes of a character. -/

/-- **Behind the first byte of a character are continuation bytes**, and only there. -/
theorem Form.exists_eq_cons {unit : Bytes} {n : Nat} (h : Form unit n) :
    ∃ first others, unit = first :: others ∧ isContinuation first = false ∧
      ∀ b ∈ others, isContinuation b = true := by
  have hfirst {a : UInt8} (ha : a.toNat < 0x80 ∨ 0xC0 ≤ a.toNat) : isContinuation a = false := by
    rw [Bool.eq_false_iff, Ne, isContinuation_iff]
    omega
  have hfollow {a b : UInt8} (hb : mayFollow a b = true) : isContinuation b = true := by
    rw [mayFollow_iff] at hb
    exact isContinuation_iff.mpr ⟨hb.1, hb.2.1⟩
  cases h with
  | one ha => exact ⟨_, [], rfl, hfirst (Or.inl ha), fun _ h => absurd h List.not_mem_nil⟩
  | two hlow hhigh hb => exact ⟨_, _, rfl, hfirst (Or.inr (by omega)), by simp [hb]⟩
  | three hlow hhigh hb hc =>
      exact ⟨_, _, rfl, hfirst (Or.inr (by omega)), by simp [hfollow hb, hc]⟩
  | four hlow hhigh hb hc hd =>
      exact ⟨_, _, rfl, hfirst (Or.inr (by omega)), by simp [hfollow hb, hc, hd]⟩

/-- A character has as many bytes as its range says. -/
theorem length_encodeChar (c : Char) : (encodeChar c).length = c.utf8Size := by
  unfold encodeChar Char.utf8Size
  simp only [UInt32.le_iff_toNat_le]
  show _ = if c.toNat ≤ 127 then 1 else if c.toNat ≤ 2047 then 2
    else if c.toNat ≤ 65535 then 3 else 4
  split_ifs <;> first | rfl | omega

theorem length_encode_append_singleton (front : Text) (c : Char) :
    (encode (front ++ [c])).length = (encode front).length + (encodeChar c).length := by
  rw [encode_append, List.length_append]
  simp [encode]

/-! ## §3. Boundaries are places between characters. -/

theorem isBoundary_zero (bytes : Bytes) : isBoundary bytes 0 = true := by
  cases bytes <;> rfl

/-- The end of the first characters is a boundary. -/
theorem isBoundary_encode (front rest : Text) :
    isBoundary (encode (front ++ rest)) (encode front).length = true := by
  unfold isBoundary
  rw [encode_append]
  cases rest with
  | nil =>
      have hnone : (encode front ++ encode [])[(encode front).length]? = none :=
        List.getElem?_eq_none (by simp [encode])
      rw [hnone]
      simp [encode]
  | cons c rest =>
      obtain ⟨first, others, hc, hfirst, -⟩ := (form_encodeChar c).exists_eq_cons
      have hbyte : (encode front ++ encode (c :: rest))[(encode front).length]? = some first := by
        rw [List.getElem?_append_right (Nat.le_refl _), Nat.sub_self]
        show (encodeChar c ++ encode rest)[0]? = some first
        rw [hc]
        rfl
      rw [hbyte]
      simp [hfirst]

/-- A boundary behind some bytes is a boundary of the others. -/
theorem isBoundary_of_append {front bytes : Bytes} {offset : Nat}
    (h : isBoundary (front ++ bytes) (front.length + offset) = true) :
    isBoundary bytes offset = true := by
  by_cases hzero : offset = 0
  · subst hzero
    exact isBoundary_zero bytes
  · unfold isBoundary at h ⊢
    rw [List.getElem?_append_right (Nat.le_add_right _ _), Nat.add_sub_cancel_left] at h
    split at h
    case h_1 b hbyte => simpa [hbyte, hzero] using h
    case h_2 hnone => simpa [hnone] using h

/-- Within a character there is no boundary. -/
theorem not_isBoundary_within {c : Char} {rest : Bytes} {offset : Nat} (hpos : offset ≠ 0)
    (hlt : offset < (encodeChar c).length) : isBoundary (encodeChar c ++ rest) offset = false := by
  obtain ⟨first, others, hc, -, hothers⟩ := (form_encodeChar c).exists_eq_cons
  obtain ⟨k, rfl⟩ := Nat.exists_eq_succ_of_ne_zero hpos
  rw [hc, List.length_cons] at hlt
  have hk : k < others.length := Nat.lt_of_succ_lt_succ hlt
  have hbyte : (encodeChar c ++ rest)[k + 1]? = some others[k] := by
    rw [hc, List.cons_append, List.getElem?_cons_succ, List.getElem?_append_left hk,
      List.getElem?_eq_getElem hk]
  unfold isBoundary
  rw [hbyte]
  simp [hothers others[k] (List.getElem_mem hk)]

/-- **Boundaries are the places between characters.** -/
theorem isBoundary_encode_iff {text : Text} {offset : Nat} :
    isBoundary (encode text) offset = true ↔
      ∃ front rest, text = front ++ rest ∧ offset = (encode front).length := by
  constructor
  · intro h
    induction text generalizing offset with
    | nil => exact ⟨[], [], rfl, Nat.eq_zero_of_le_zero (le_length_of_isBoundary h)⟩
    | cons c text ih =>
        by_cases hpos : offset = 0
        · exact ⟨[], c :: text, rfl, hpos⟩
        · rcases Nat.lt_or_ge offset (encodeChar c).length with hlt | hge
          · have hwithin : isBoundary (encode (c :: text)) offset = false :=
              not_isBoundary_within hpos hlt
            rw [hwithin] at h
            exact nomatch h
          · obtain ⟨k, rfl⟩ := Nat.exists_eq_add_of_le hge
            have hbehind : isBoundary (encodeChar c ++ encode text) ((encodeChar c).length + k) =
              true := h
            obtain ⟨front, rest, rfl, rfl⟩ := ih (isBoundary_of_append hbehind)
            exact ⟨c :: front, rest, rfl, (List.length_append).symm⟩
  · rintro ⟨front, rest, rfl, rfl⟩
    exact isBoundary_encode front rest

/-- **A slice between places** is what stands there. -/
theorem slice?_encode (front middle rest : Text) :
    slice? (encode (front ++ middle ++ rest)) (encode front).length
      (encode (front ++ middle)).length = some (encode middle) := by
  have hstart : isBoundary (encode (front ++ middle ++ rest)) (encode front).length = true := by
    rw [List.append_assoc]
    exact isBoundary_encode front (middle ++ rest)
  have horder : (encode front).length ≤ (encode (front ++ middle)).length := by
    rw [encode_append, List.length_append]
    exact Nat.le_add_right _ _
  unfold slice?
  rw [if_pos ⟨horder, hstart, isBoundary_encode (front ++ middle) rest⟩, encode_append _ rest,
    List.take_left' rfl, encode_append, List.drop_left' rfl]

theorem slice?_encode_end (front rest : Text) :
    slice? (encode (front ++ rest)) (encode front).length (encode (front ++ rest)).length =
      some (encode rest) := by
  have hslice := slice?_encode front rest []
  rwa [List.append_nil] at hslice

end YamlDocs.Utf8
