/-
  YamlDocs.Number.Decimal
  ────────────────────────────────
  **DECIMAL NUMERALS.**

  A decimal is a sign, a digit string read as a natural number and a power
  of ten.  `positional` writes it without an exponent: zeros fill up to the
  decimal point on either side, no zero ends a fraction, and a whole number
  has no point.
-/
import YamlDocs.Text.Basic

namespace YamlDocs

/-- The number `± digits · 10 ^ exponent`. -/
structure Decimal where
  negative : Bool
  digits : Nat
  exponent : Int
deriving DecidableEq, Repr

namespace Decimal

/-! ## §1. Writing. -/

/-- The digits of a fraction without the zeros at its end. -/
def trimZeros (fraction : Text) : Text := (fraction.reverse.dropWhile (· == '0')).reverse

/-- The numeral of `digits · 10 ^ exponent`, without exponent. -/
def magnitude (digits : Nat) (exponent : Int) : Text :=
  match exponent with
  | .ofNat zeros => Text.ofNat (digits * Nat.pow 10 zeros)
  | .negSucc below =>
    let places := below + 1
    let numeral := Text.ofNat digits
    let padded := List.replicate (places + 1 - numeral.length) '0' ++ numeral
    let whole := padded.take (padded.length - places)
    match trimZeros (padded.drop (padded.length - places)) with
    | [] => whole
    | fraction => whole ++ '.' :: fraction

/-- The numeral of a decimal, without exponent; a minus sign stands in front of a negative zero
too. -/
def positional (d : Decimal) : Text :=
  (if d.negative then ['-'] else []) ++ magnitude d.digits d.exponent

/-! ## §2. Reading. -/

/-- The number that an exponent writes: digits with an optional sign in front. -/
def readSigned : Text → Int
  | '-' :: digits => -(Text.digitsValue digits : Int)
  | '+' :: digits => Text.digitsValue digits
  | digits => Text.digitsValue digits

/-- The parts of a numeral before and behind the letter of its exponent. -/
def splitExponent (numeral : Text) : Text × Option Text :=
  match numeral.span (fun c => c ≠ 'e' ∧ c ≠ 'E') with
  | (mantissa, []) => (mantissa, none)
  | (mantissa, _ :: exponent) => (mantissa, some exponent)

/-- The decimal that a numeral writes: an optional sign, digits, an optional fraction and an
optional exponent. -/
def ofNumeral (numeral : Text) : Decimal :=
  let (negative, unsigned) := match numeral with
    | '-' :: rest => (true, rest)
    | '+' :: rest => (false, rest)
    | rest => (false, rest)
  let (mantissa, exponent) := splitExponent unsigned
  let (whole, fraction) := match splitFirst? '.' mantissa with
    | some parts => parts
    | none => (mantissa, [])
  { negative
    digits := Text.digitsValue (whole ++ fraction)
    exponent := (exponent.map readSigned).getD 0 - fraction.length }

/-- Whether a numeral has neither a fraction nor an exponent. -/
def isWhole (numeral : Text) : Bool := numeral.all fun c => c ≠ '.' ∧ c ≠ 'e' ∧ c ≠ 'E'

end Decimal

end YamlDocs
