/-
  YamlDocs.Proofs.Text.Utf8
  ────────────────────────────────
  **BYTES THAT ENCODE A TEXT.**

  An encoded character has one of four forms, by the number of its bytes
  (`Form`).  The decoder takes a form off the front of the bytes, and nothing
  else gives it a character (`parts_append_of_form`, `exists_form_of_parts`).
  The encoder writes these forms (`form_encodeChar`), and the number that a
  form stands for determines its bytes (`encodeChar_of_form`).  Together:

      decode? bytes = some text  ↔  encode text = bytes

  So a byte string is UTF-8 exactly if it is the encoding of a text.
-/
import YamlDocs.Path.Basic
import YamlDocs.Proofs.Result

namespace YamlDocs

namespace Utf8

/-! ## §1. Bytes as numbers. -/

theorem isContinuation_iff {b : UInt8} :
    isContinuation b = true ↔ 0x80 ≤ b.toNat ∧ b.toNat ≤ 0xBF := by
  simp [isContinuation, UInt8.le_iff_toNat_le]

/-- A second byte is a continuation byte, and four first bytes narrow its range. -/
theorem mayFollow_iff {a b : UInt8} :
    mayFollow a b = true ↔
      0x80 ≤ b.toNat ∧ b.toNat ≤ 0xBF ∧
        (a.toNat = 0xE0 → 0xA0 ≤ b.toNat) ∧ (a.toNat = 0xED → b.toNat ≤ 0x9F) ∧
        (a.toNat = 0xF0 → 0x90 ≤ b.toNat) ∧ (a.toNat = 0xF4 → b.toNat ≤ 0x8F) := by
  simp only [mayFollow, isContinuation, beq_iff_eq, ← UInt8.toNat_inj, UInt8.le_iff_toNat_le,
    UInt8.reduceToNat]
  split
  · simp
    omega
  split
  · simp
    omega
  split
  · simp
    omega
  split
  · simp
    omega
  · simp
    omega

theorem ofNat_eq_of_eq_toNat {n : Nat} {b : UInt8} (h : n = b.toNat) : UInt8.ofNat n = b := by
  rw [h, UInt8.ofNat_toNat]

/-- The number of the character that a code point stands for. -/
theorem toNat_ofNat_of_isValidChar {n : Nat} (h : n.isValidChar) : (Char.ofNat n).toNat = n := by
  unfold Char.ofNat
  rw [dif_pos h]
  rfl

/-! ## §2. The forms of an encoded character. -/

/-- The bytes of an encoded character and the number that they stand for. -/
inductive Form : Bytes → Nat → Prop
  | one {a : UInt8} (ha : a.toNat < 0x80) : Form [a] a.toNat
  | two {a b : UInt8} (hlow : 0xC2 ≤ a.toNat) (hhigh : a.toNat ≤ 0xDF)
      (hb : isContinuation b = true) : Form [a, b] (a.toNat % 0x20 * 0x40 + low b)
  | three {a b c : UInt8} (hlow : 0xE0 ≤ a.toNat) (hhigh : a.toNat ≤ 0xEF)
      (hb : mayFollow a b = true) (hc : isContinuation c = true) :
      Form [a, b, c] ((a.toNat % 0x10 * 0x40 + low b) * 0x40 + low c)
  | four {a b c d : UInt8} (hlow : 0xF0 ≤ a.toNat) (hhigh : a.toNat ≤ 0xF4)
      (hb : mayFollow a b = true) (hc : isContinuation c = true) (hd : isContinuation d = true) :
      Form [a, b, c, d] (((a.toNat % 0x08 * 0x40 + low b) * 0x40 + low c) * 0x40 + low d)

/-- **The decoder takes a form off the front.** -/
theorem parts_append_of_form {unit : Bytes} {n : Nat} (h : Form unit n) (rest : Bytes) :
    parts (unit ++ rest) = some (.ofNat n) :: parts rest := by
  rw [parts.eq_def]
  -- The ranges of the first byte are disjoint, so the tests for shorter forms fail.
  cases h with
  | one ha => simp [UInt8.lt_iff_toNat_lt, ha]
  | @two a b hlow hhigh hb =>
      have hone : ¬ a.toNat < 0x80 := by omega
      simp [UInt8.lt_iff_toNat_lt, UInt8.le_iff_toNat_le, hone, hlow, hhigh, hb]
  | @three a b c hlow hhigh hb hc =>
      have hone : ¬ a.toNat < 0x80 := by omega
      have htwo : ¬ a.toNat ≤ 0xDF := by omega
      simp [UInt8.lt_iff_toNat_lt, UInt8.le_iff_toNat_le, hone, htwo, hlow, hhigh, hb, hc]
  | @four a b c d hlow hhigh hb hc hd =>
      have hone : ¬ a.toNat < 0x80 := by omega
      have htwo : ¬ a.toNat ≤ 0xDF := by omega
      have hthree : ¬ a.toNat ≤ 0xEF := by omega
      simp [UInt8.lt_iff_toNat_lt, UInt8.le_iff_toNat_le, hone, htwo, hthree, hlow, hhigh, hb, hc,
        hd]

/-- **A character is decoded from a form only.** -/
theorem exists_form_of_parts {bytes : Bytes} {c : Char} {others : List (Option Char)}
    (h : parts bytes = some c :: others) :
    ∃ unit n rest, Form unit n ∧ bytes = unit ++ rest ∧ c = .ofNat n ∧ others = parts rest := by
  revert h
  fun_cases parts bytes with
  | case2 a rest ha =>
      rintro ⟨⟩
      exact ⟨_, _, rest, .one ha, rfl, rfl, rfl⟩
  | case4 a _ hrange b rest hb =>
      rintro ⟨⟩
      obtain ⟨hlow, hhigh⟩ := Bool.and_eq_true_iff.mp hrange
      exact ⟨_, _, rest, .two (of_decide_eq_true hlow) (of_decide_eq_true hhigh) hb, rfl, rfl, rfl⟩
  | case8 a _ _ hrange b hb c rest hc =>
      rintro ⟨⟩
      obtain ⟨hlow, hhigh⟩ := Bool.and_eq_true_iff.mp hrange
      exact ⟨_, _, rest, .three (of_decide_eq_true hlow) (of_decide_eq_true hhigh) hb hc, rfl, rfl,
        rfl⟩
  | case14 a _ _ _ hrange b hb c hc d rest hd =>
      rintro ⟨⟩
      obtain ⟨hlow, hhigh⟩ := Bool.and_eq_true_iff.mp hrange
      exact ⟨_, _, rest, .four (of_decide_eq_true hlow) (of_decide_eq_true hhigh) hb hc hd, rfl, rfl,
        rfl⟩
  | _ =>
      -- No part at all, or an invalid one.
      intro h
      cases h

/-! ## §3. The encoder writes the forms. -/

/-- **The number that a form stands for determines its bytes.** -/
theorem encodeChar_of_form {unit : Bytes} {n : Nat} (h : Form unit n) :
    encodeChar (.ofNat n) = unit := by
  cases h with
  | @one a ha =>
      have hvalid : a.toNat.isValidChar := Or.inl (by omega)
      simp only [encodeChar, toNat_ofNat_of_isValidChar hvalid]
      rw [if_pos ha, UInt8.ofNat_toNat]
  | @two a b hlow hhigh hb =>
      rw [isContinuation_iff] at hb
      unfold low
      generalize hn : a.toNat % 0x20 * 0x40 + b.toNat % 0x40 = n
      have hvalid : n.isValidChar := Or.inl (by omega)
      simp only [encodeChar, toNat_ofNat_of_isValidChar hvalid]
      rw [if_neg (by omega), if_pos (by omega), ofNat_eq_of_eq_toNat (b := a) (by omega),
        ofNat_eq_of_eq_toNat (b := b) (by omega)]
  | @three a b c hlow hhigh hb hc =>
      rw [mayFollow_iff] at hb
      rw [isContinuation_iff] at hc
      unfold low
      generalize hn : (a.toNat % 0x10 * 0x40 + b.toNat % 0x40) * 0x40 + c.toNat % 0x40 = n
      have hvalid : n.isValidChar := by
        -- The narrowed range behind 0xED leaves out the surrogates.
        unfold Nat.isValidChar
        omega
      simp only [encodeChar, toNat_ofNat_of_isValidChar hvalid]
      rw [if_neg (by omega), if_neg (by omega), if_pos (by omega),
        ofNat_eq_of_eq_toNat (b := a) (by omega), ofNat_eq_of_eq_toNat (b := b) (by omega),
        ofNat_eq_of_eq_toNat (b := c) (by omega)]
  | @four a b c d hlow hhigh hb hc hd =>
      rw [mayFollow_iff] at hb
      rw [isContinuation_iff] at hc hd
      unfold low
      generalize hn : ((a.toNat % 0x08 * 0x40 + b.toNat % 0x40) * 0x40 + c.toNat % 0x40) * 0x40 +
        d.toNat % 0x40 = n
      have hvalid : n.isValidChar := by
        -- The narrowed range behind 0xF4 ends with the last code point.
        unfold Nat.isValidChar
        omega
      simp only [encodeChar, toNat_ofNat_of_isValidChar hvalid]
      rw [if_neg (by omega), if_neg (by omega), if_neg (by omega),
        ofNat_eq_of_eq_toNat (b := a) (by omega), ofNat_eq_of_eq_toNat (b := b) (by omega),
        ofNat_eq_of_eq_toNat (b := c) (by omega), ofNat_eq_of_eq_toNat (b := d) (by omega)]

/-- **A character is encoded by a form of its number.** -/
theorem form_encodeChar (c : Char) : Form (encodeChar c) c.toNat := by
  have hvalid : c.toNat.isValidChar := c.valid
  unfold Nat.isValidChar at hvalid
  simp only [encodeChar]
  generalize c.toNat = n at hvalid
  have hlead (k : Nat) (hk : k < 0x100) : (UInt8.ofNat k).toNat = k := UInt8.toNat_ofNat_of_lt' hk
  -- Every byte but the first holds six bits.
  have htail (k : Nat) : (UInt8.ofNat (0x80 + k % 0x40)).toNat = 0x80 + k % 0x40 :=
    hlead _ (by omega)
  split
  case isTrue hone =>
    have ha := hlead n (by omega)
    have hform : Form [.ofNat n] _ := .one (by omega)
    rwa [ha] at hform
  split
  case isTrue htwo =>
    have ha := hlead (0xC0 + n / 0x40) (by omega)
    have hb := htail n
    have hform : Form [.ofNat (0xC0 + n / 0x40), .ofNat (0x80 + n % 0x40)] _ :=
      .two (by omega) (by omega) (isContinuation_iff.mpr (by omega))
    unfold low at hform
    rw [ha, hb] at hform
    have hn : (0xC0 + n / 0x40) % 0x20 * 0x40 + (0x80 + n % 0x40) % 0x40 = n := by omega
    rwa [hn] at hform
  split
  case isTrue hthree =>
    have ha := hlead (0xE0 + n / 0x1000) (by omega)
    have hb := htail (n / 0x40)
    have hc := htail n
    have hform : Form [.ofNat (0xE0 + n / 0x1000), .ofNat (0x80 + n / 0x40 % 0x40),
        .ofNat (0x80 + n % 0x40)] _ :=
      .three (by omega) (by omega) (mayFollow_iff.mpr (by omega)) (isContinuation_iff.mpr (by omega))
    unfold low at hform
    rw [ha, hb, hc] at hform
    have hn : ((0xE0 + n / 0x1000) % 0x10 * 0x40 + (0x80 + n / 0x40 % 0x40) % 0x40) * 0x40 +
        (0x80 + n % 0x40) % 0x40 = n := by omega
    rwa [hn] at hform
  case isFalse hfour =>
    have ha := hlead (0xF0 + n / 0x40000) (by omega)
    have hb := htail (n / 0x1000)
    have hc := htail (n / 0x40)
    have hd := htail n
    have hform : Form [.ofNat (0xF0 + n / 0x40000), .ofNat (0x80 + n / 0x1000 % 0x40),
        .ofNat (0x80 + n / 0x40 % 0x40), .ofNat (0x80 + n % 0x40)] _ :=
      .four (by omega) (by omega) (mayFollow_iff.mpr (by omega)) (isContinuation_iff.mpr (by omega))
        (isContinuation_iff.mpr (by omega))
    unfold low at hform
    rw [ha, hb, hc, hd] at hform
    have hn : (((0xF0 + n / 0x40000) % 0x08 * 0x40 + (0x80 + n / 0x1000 % 0x40) % 0x40) * 0x40 +
        (0x80 + n / 0x40 % 0x40) % 0x40) * 0x40 + (0x80 + n % 0x40) % 0x40 = n := by omega
    rwa [hn] at hform

/-! ## §4. Texts. -/

theorem encodeChar_ne_nil (c : Char) : encodeChar c ≠ [] := by
  intro hnil
  have hform := form_encodeChar c
  rw [hnil] at hform
  cases hform

theorem encode_append (first second : Text) :
    encode (first ++ second) = encode first ++ encode second :=
  List.flatMap_append

theorem encode_ne_nil {text : Text} (h : text ≠ []) : encode text ≠ [] := by
  obtain ⟨c, rest, rfl⟩ := List.exists_cons_of_ne_nil h
  intro hnil
  exact encodeChar_ne_nil c (List.append_eq_nil_iff.mp hnil).1

theorem parts_encode (text : Text) : parts (encode text) = text.map some := by
  induction text with
  | nil => rfl
  | cons c rest ih =>
      show parts (encodeChar c ++ encode rest) = _
      rw [parts_append_of_form (form_encodeChar c), Char.ofNat_toNat, ih]
      rfl

theorem eq_nil_of_parts_eq_nil {bytes : Bytes} (h : parts bytes = []) : bytes = [] := by
  revert h
  fun_cases parts bytes with
  | case1 => exact fun _ => rfl
  | _ =>
      intro h
      cases h

/-- Parts without an invalid one among them come from an encoded text. -/
theorem encode_of_parts {bytes : Bytes} {text : Text} (h : parts bytes = text.map some) :
    encode text = bytes := by
  induction text generalizing bytes with
  | nil => rw [eq_nil_of_parts_eq_nil h]; rfl
  | cons c others ih =>
      obtain ⟨unit, n, rest, hform, rfl, rfl, hrest⟩ := exists_form_of_parts h
      show encodeChar (.ofNat n) ++ encode others = _
      rw [encodeChar_of_form hform, ih hrest.symm]

/-- **A byte string is decoded into the text that it encodes.** -/
theorem decode?_eq_some_iff {bytes : Bytes} {text : Text} :
    decode? bytes = some text ↔ encode text = bytes := by
  have hparts : decode? bytes = some text ↔ parts bytes = text.map some := by
    unfold decode?
    rw [mapM_eq_some_iff, ← List.forall₂_eq_eq_eq, List.forall₂_map_right_iff]
    rfl
  rw [hparts]
  constructor
  · exact encode_of_parts
  · rintro rfl
    exact parts_encode text

end Utf8

/-- A path that a text spells. -/
def Path.IsUtf8 (path : Path) : Prop := ∃ text, Path.ofText text = path

theorem Path.toText?_eq_some_iff {path : Path} {text : Text} :
    path.toText? = some text ↔ Path.ofText text = path := by
  obtain ⟨bytes⟩ := path
  unfold toText? ofText
  rw [Utf8.decode?_eq_some_iff, Path.mk.injEq]

end YamlDocs
