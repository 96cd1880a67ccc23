/-
  YamlDocs.Text.Utf8
  ────────────────────────────────
  **TEXT AS UTF-8 BYTES.**

  A byte string is read as a list of parts: each part is either one encoded
  character or one maximal invalid part, that is the longest run of bytes
  which begins an encoded character without completing it, or a single byte
  that begins none.  `decode?` accepts a byte string without invalid parts;
  `decodeLossy` shows U+FFFD once for each of them.
-/
import YamlDocs.Text.Basic

namespace YamlDocs.Utf8

/-! ## §1. Encoding. -/

/-- The bytes of one character. -/
def encodeChar (c : Char) : Bytes :=
  let n := c.toNat
  if n < 0x80 then [.ofNat n]
  else if n < 0x800 then [.ofNat (0xC0 + n / 0x40), .ofNat (0x80 + n % 0x40)]
  else if n < 0x10000 then
    [.ofNat (0xE0 + n / 0x1000), .ofNat (0x80 + n / 0x40 % 0x40), .ofNat (0x80 + n % 0x40)]
  else
    [.ofNat (0xF0 + n / 0x40000), .ofNat (0x80 + n / 0x1000 % 0x40),
     .ofNat (0x80 + n / 0x40 % 0x40), .ofNat (0x80 + n % 0x40)]

/-- The bytes of a text. -/
def encode (text : Text) : Bytes := text.flatMap encodeChar

/-! ## §2. Classes of bytes. -/

/-- Whether a byte may stand anywhere but first in an encoded character. -/
def isContinuation (b : UInt8) : Bool := 0x80 ≤ b && b ≤ 0xBF

/-- Whether `b` may follow the first byte `a` of a character of three or four bytes: the ranges
leave out overlong forms, surrogates and numbers above U+10FFFF. -/
def mayFollow (a b : UInt8) : Bool :=
  if a == 0xE0 then 0xA0 ≤ b && b ≤ 0xBF
  else if a == 0xED then 0x80 ≤ b && b ≤ 0x9F
  else if a == 0xF0 then 0x90 ≤ b && b ≤ 0xBF
  else if a == 0xF4 then 0x80 ≤ b && b ≤ 0x8F
  else isContinuation b

/-- The six low bits of a continuation byte. -/
def low (b : UInt8) : Nat := b.toNat % 0x40

/-! ## §3. Decoding. -/

/-- The parts of a byte string: `some c` for an encoded character, `none` for a maximal
invalid part. -/
def parts : Bytes → List (Option Char)
  | [] => []
  | a :: rest =>
    if a < 0x80 then some (.ofNat a.toNat) :: parts rest
    -- Two bytes; 0xC0 and 0xC1 begin overlong forms only.
    else if 0xC2 ≤ a && a ≤ 0xDF then
      match rest with
      | [] => [none]
      | b :: rest₁ =>
        if isContinuation b then some (.ofNat (a.toNat % 0x20 * 0x40 + low b)) :: parts rest₁
        else none :: parts (b :: rest₁)
    -- Three bytes.
    else if 0xE0 ≤ a && a ≤ 0xEF then
      match rest with
      | [] => [none]
      | b :: rest₁ =>
        if mayFollow a b then
          match rest₁ with
          | [] => [none]
          | c :: rest₂ =>
            if isContinuation c then
              some (.ofNat ((a.toNat % 0x10 * 0x40 + low b) * 0x40 + low c)) :: parts rest₂
            else none :: parts (c :: rest₂)
        else none :: parts (b :: rest₁)
    -- Four bytes.
    else if 0xF0 ≤ a && a ≤ 0xF4 then
      match rest with
      | [] => [none]
      | b :: rest₁ =>
        if mayFollow a b then
          match rest₁ with
          | [] => [none]
          | c :: rest₂ =>
            if isContinuation c then
              match rest₂ with
              | [] => [none]
              | d :: rest₃ =>
                if isContinuation d then
                  some (.ofNat (((a.toNat % 0x08 * 0x40 + low b) * 0x40 + low c) * 0x40 + low d))
                    :: parts rest₃
                else none :: parts (d :: rest₃)
            else none :: parts (c :: rest₂)
        else none :: parts (b :: rest₁)
    -- A byte that begins no character.
    else none :: parts rest

/-- The text that the bytes encode; `none` if some part of them is invalid. -/
def decode? (bytes : Bytes) : Option Text := (parts bytes).mapM id

/-- The text that the bytes show: U+FFFD stands for every maximal invalid part. -/
def decodeLossy (bytes : Bytes) : Text := (parts bytes).map (·.getD '\uFFFD')

end YamlDocs.Utf8
