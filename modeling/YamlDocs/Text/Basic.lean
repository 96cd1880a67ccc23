/-
  YamlDocs.Text.Basic
  ────────────────────────────────
  **TEXT AND BYTES.**

  A text is the list of its characters and a byte string the list of its
  bytes.  Every law of the library speaks about these lists, so both are
  plain abbreviations: `++`, `take`, `isPrefixOf` and the list lemmas apply
  as they stand.  Strings appear only where a program prints.
-/

namespace YamlDocs

/-- A text is the list of its characters (Unicode scalar values). -/
abbrev Text := List Char

/-- A byte string, not necessarily the encoding of a text. -/
abbrev Bytes := List UInt8

/-! ## §1. Cutting a list. -/

section Cutting

variable {α : Type} [DecidableEq α]

/-- The parts before and after the first occurrence of `c`, if it occurs. -/
def splitFirst? (c : α) : List α → Option (List α × List α)
  | [] => none
  | x :: rest =>
    if x = c then some ([], rest)
    else (splitFirst? c rest).map fun (before, after) => (x :: before, after)

/-- A list is not cut exactly where the element does not occur. -/
theorem splitFirst?_eq_none_iff {c : α} {xs : List α} :
    splitFirst? c xs = none ↔ c ∉ xs := by
  induction xs with
  | nil => exact iff_of_true rfl List.not_mem_nil
  | cons x rest ih =>
      rw [splitFirst?, List.mem_cons, not_or]
      split
      case isTrue h => exact iff_of_false (fun hcut => nomatch hcut) fun hne => hne.1 h.symm
      case isFalse h =>
        rw [Option.map_eq_none_iff, ih]
        exact ⟨fun hrest => ⟨fun hc => h hc.symm, hrest⟩, fun hrest => hrest.2⟩

/-- A list is cut at the first occurrence of the element. -/
theorem splitFirst?_eq_some_iff {c : α} {xs before after : List α} :
    splitFirst? c xs = some (before, after) ↔ c ∉ before ∧ xs = before ++ c :: after := by
  induction xs generalizing before with
  | nil => simp [splitFirst?]
  | cons x rest ih =>
      rw [splitFirst?]
      split
      case isTrue h =>
        subst h
        constructor
        · rintro ⟨⟩
          exact ⟨List.not_mem_nil, rfl⟩
        · rintro ⟨hbefore, hxs⟩
          cases before with
          | nil => rw [(List.cons.inj hxs).2]
          | cons y before =>
              exact absurd (List.cons.inj hxs).1 (List.ne_of_not_mem_cons hbefore)
      case isFalse h =>
        rw [Option.map_eq_some_iff]
        constructor
        · rintro ⟨⟨front, tail⟩, hcut, heq⟩
          obtain ⟨rfl, rfl⟩ := Prod.mk.inj heq
          obtain ⟨hfront, rfl⟩ := ih.mp hcut
          exact ⟨by simp [hfront, Ne.symm h], rfl⟩
        · rintro ⟨hbefore, hxs⟩
          cases before with
          | nil => exact absurd (List.cons.inj hxs).1 h
          | cons y before =>
              obtain ⟨rfl, hrest⟩ := List.cons.inj hxs
              exact ⟨(before, after), ih.mpr ⟨List.not_mem_of_not_mem_cons hbefore, hrest⟩, rfl⟩

end Cutting

namespace Text

/-! ## §2. Numerals. -/

/-- The decimal numeral of a number, without leading zeros. -/
def ofNat (n : Nat) : Text := Nat.toDigits 10 n

/-- The decimal numeral of an integer, with a minus sign in front of a negative one. -/
def ofInt : Int → Text
  | .ofNat n => ofNat n
  | .negSucc n => '-' :: ofNat (n + 1)

/-- The value of a list of decimal digits, read from the left. -/
def digitsValue (digits : Text) : Nat :=
  digits.foldl (fun value c => 10 * value + (c.toNat - '0'.toNat)) 0

/-- The value of a hexadecimal digit of either case. -/
def hexDigit? (c : Char) : Option Nat :=
  if '0' ≤ c ∧ c ≤ '9' then some (c.toNat - '0'.toNat)
  else if 'a' ≤ c ∧ c ≤ 'f' then some (c.toNat - 'a'.toNat + 10)
  else if 'A' ≤ c ∧ c ≤ 'F' then some (c.toNat - 'A'.toNat + 10)
  else none

/-! ## §3. Parts of a text. -/

/-- The text with one space less in front, if it begins with a space. -/
def dropOneSpace : Text → Text
  | ' ' :: rest => rest
  | text => text

/-- The texts one after the other, with `separator` between two neighbours. -/
def join (separator : Text) (texts : List Text) : Text := separator.intercalate texts

/-! ## §4. Letter case. -/

/-- The text with the capital letters A to Z made small; all other characters stay. -/
def lowerAscii (text : Text) : Text := text.map Char.toLower

end Text

end YamlDocs
