/-
  YamlDocs.Text.Blank
  ────────────────────────────────
  **WHITE SPACE.**

  `isBlank` is the Unicode property White_Space: 25 characters, listed as
  ranges.  Words, trimming, blank lines and the indentation of a line are all
  measured with it, so a no-break space or an ideographic space counts like a
  blank.
-/
import YamlDocs.Text.Basic

namespace YamlDocs.Text

/-! ## §1. The property. -/

/-- The ranges of the Unicode property White_Space, first and last code point. -/
def blankRanges : List (Nat × Nat) :=
  [(0x09, 0x0D), (0x20, 0x20), (0x85, 0x85), (0xA0, 0xA0), (0x1680, 0x1680),
   (0x2000, 0x200A), (0x2028, 0x2029), (0x202F, 0x202F), (0x205F, 0x205F), (0x3000, 0x3000)]

/-- Whether a character is white space. -/
def isBlank (c : Char) : Bool :=
  blankRanges.any fun (first, last) => decide (first ≤ c.toNat ∧ c.toNat ≤ last)

/-! ## §2. Trimming and words. -/

/-- The text without the white space in front. -/
def trimStart (text : Text) : Text := text.dropWhile isBlank

/-- The text without the white space at its end. -/
def trimEnd (text : Text) : Text := (trimStart text.reverse).reverse

/-- The text without the white space at both ends. -/
def trim (text : Text) : Text := trimEnd (trimStart text)

/-- The words of a text: its maximal runs of characters other than white space. -/
def words (text : Text) : List Text := (text.splitOnP isBlank).filter (· ≠ [])

/-! ## §3. Lines. -/

/-- Whether a line holds nothing but white space. -/
def isBlankLine (line : Text) : Bool := line.all isBlank

/-- How many white space characters a line begins with. -/
def indentWidth (line : Text) : Nat := (line.takeWhile isBlank).length

end YamlDocs.Text
