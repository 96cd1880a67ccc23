/-
  YamlDocs.Number.Binary64
  ────────────────────────────────
  **DOUBLE-PRECISION NUMBERS, EXACTLY.**

  A finite double is a sign and `mantissa · 2 ^ exponent` with a mantissa
  below 2 ^ 53 and an exponent of at least -1074.  `ofDecimal` rounds a
  decimal to the nearest double, ties to the even mantissa.  `shortest` finds
  the fewest decimal digits that round back to a double: on the grids of 1, 2,
  … 17 digits it tries the two neighbours of the value; of two that round
  back the nearer wins, and of two equally near the larger.  All of it is
  exact arithmetic on natural numbers.
-/
import YamlDocs.Number.Decimal

namespace YamlDocs

/-- A double-precision number. -/
inductive Binary64 where
  | finite (negative : Bool) (mantissa : Nat) (exponent : Int)
  | infinite (negative : Bool)
  | nan
deriving DecidableEq, Repr

namespace Binary64

/-! ## §1. Limits. -/

/-- The mantissas of normal numbers begin here and end below its double. -/
def leastNormal : Nat := Nat.pow 2 52

/-- The exponent of the smallest numbers. -/
def leastExponent : Int := -1074

/-- The exponent of the largest numbers. -/
def greatestExponent : Int := 971

/-! ## §2. Rounding. -/

/-- The quotient `num / den` rounded to the nearest natural number, ties to even. -/
def roundEven (num den : Nat) : Nat :=
  let quotient := num / den
  let rest := num % den
  if 2 * rest < den then quotient
  else if den < 2 * rest then quotient + 1
  else if quotient % 2 = 0 then quotient
  else quotient + 1

/-- Numerator and denominator of `n · b ^ e`. -/
def scaled (b n : Nat) : Int → Nat × Nat
  | .ofNat e => (n * Nat.pow b e, 1)
  | .negSucc e => (n, Nat.pow b (e + 1))

/-- The double nearest to `num / den`, both positive. -/
def ofRatio (negative : Bool) (num den : Nat) : Binary64 :=
  let rough := max ((Nat.log2 num : Int) - Nat.log2 den - 53) leastExponent
  let divisor (exponent : Int) : Nat × Nat := scaled 2 den exponent
  let quotient (exponent : Int) : Nat × Nat :=
    let (below, above) := divisor exponent
    (num * above, below)
  let (n, d) := quotient rough
  -- The rough exponent is right or too small by one.
  let exponent := if 2 * leastNormal ≤ n / d then rough + 1 else rough
  let (n, d) := quotient exponent
  let mantissa := roundEven n d
  -- Rounding up may reach the next power of two.
  let (mantissa, exponent) :=
    if mantissa = 2 * leastNormal then (leastNormal, exponent + 1) else (mantissa, exponent)
  if greatestExponent < exponent then .infinite negative
  else .finite negative mantissa exponent

/-- The double nearest to a decimal; one too large for a double is infinite. -/
def ofDecimal (d : Decimal) : Binary64 :=
  let size := (Text.ofNat d.digits).length + d.exponent
  if d.digits = 0 ∨ size < -330 then .finite d.negative 0 leastExponent
  else if 310 < size then .infinite d.negative
  else
    let (num, den) := scaled 10 d.digits d.exponent
    ofRatio d.negative num den

/-! ## §3. Shortest digits. -/

/-- The exponent of the leading decimal digit of `num / den`, both positive. -/
def leadingExponent (num den : Nat) : Int :=
  let guess : Int := (Text.ofNat num).length - (Text.ofNat den).length
  let (n, d) := scaled 10 den guess
  if n ≤ num * d then guess else guess - 1

/-- The numbers between `low` and `high` that round to a double, with the double itself, all in
units of `1 / den`; the ends belong to it where `closed`. -/
structure Neighbourhood where
  low : Nat
  value : Nat
  high : Nat
  den : Nat
  closed : Bool

/-- The neighbourhood of `mantissa · 2 ^ exponent`. Below a power of two the next double is half
as far away. -/
def neighbourhood (mantissa : Nat) (exponent : Int) : Neighbourhood :=
  let (unit, den) := scaled 2 1 (exponent - 2)
  -- Quarters of a unit, so that half the smaller distance is whole.
  let gap := if mantissa = leastNormal ∧ exponent ≠ leastExponent then 1 else 2
  { low := (4 * mantissa - gap) * unit
    value := 4 * mantissa * unit
    high := (4 * mantissa + 2) * unit
    den := den
    closed := mantissa % 2 = 0 }

/-- The multiple of `10 ^ place` in a neighbourhood that is nearest to its value, if there is
one, as a count of that unit. -/
def onGrid? (n : Neighbourhood) (place : Int) : Option Nat :=
  let (unit, scale) := scaled 10 n.den place
  let count := n.value * scale / unit
  let below := count * unit
  let above := (count + 1) * unit
  let lowIn := if n.closed then n.low * scale ≤ below else n.low * scale < below
  let highIn := if n.closed then above ≤ n.high * scale else above < n.high * scale
  if lowIn ∧ highIn then
    some (if n.value * scale - below < above - n.value * scale then count else count + 1)
  else if lowIn then some count
  else if highIn then some (count + 1)
  else none

/-- The first of the grids at and below `place` that meets a neighbourhood. -/
def firstGrid? (n : Neighbourhood) (place : Int) : Nat → Option (Nat × Int)
  | 0 => none
  | tries + 1 =>
    match onGrid? n place with
    | some count => some (count, place)
    | none => firstGrid? n (place - 1) tries

/-- The shortest decimal that rounds to a finite double. -/
def shortest (negative : Bool) (mantissa : Nat) (exponent : Int) : Decimal :=
  if mantissa = 0 then { negative, digits := 0, exponent := 0 }
  else
    let n := neighbourhood mantissa exponent
    match firstGrid? n (leadingExponent n.value n.den) 18 with
    | some (digits, exponent) => { negative, digits, exponent }
    | none => { negative, digits := 0, exponent := 0 }

/-- The text of a double: its shortest digits without exponent, `inf`, `-inf` or `NaN`. -/
def text : Binary64 → Text
  | .finite negative mantissa exponent => (shortest negative mantissa exponent).positional
  | .infinite false => "inf".toList
  | .infinite true => "-inf".toList
  | .nan => "NaN".toList

end Binary64

end YamlDocs
