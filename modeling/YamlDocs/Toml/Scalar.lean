/-
  YamlDocs.Toml.Scalar
  ────────────────────────────────
  **SCALAR VALUES.**

  Strings, numbers, truth values, dates and times, with the text of each.
  Digits of a number may be parted by single underscores.  Whole numbers fit
  64 bits with sign; floating-point numbers are doubles, and a positive one
  that is too large is refused.
-/
import YamlDocs.Number.Binary64
import YamlDocs.Toml.DateTime

namespace YamlDocs.Toml

/-- A value that is no container. -/
inductive Scalar where
  | string (value : Text)
  | integer (value : Int)
  | float (value : Binary64)
  | boolean (value : Bool)
  | dateTime (value : DateTime)
deriving DecidableEq, Repr

/-- The text of a scalar: a string is its own text. -/
def Scalar.text : Scalar → Text
  | .string value => value
  | .integer value => Text.ofInt value
  | .float value => value.text
  | .boolean true => "true".toList
  | .boolean false => "false".toList
  | .dateTime value => value.text

/-! ## §1. Runs of digits. -/

/-- The digits behind the first one; an underscore has to stand between two digits. -/
def readMoreDigits? (isDigit : Char → Bool) : Text → Option (Text × Text)
  | [] => some ([], [])
  | '_' :: c :: rest =>
    if isDigit c then (readMoreDigits? isDigit rest).map fun (digits, rest) => (c :: digits, rest)
    else none
  | c :: rest =>
    if c = '_' then none
    else if isDigit c then
      (readMoreDigits? isDigit rest).map fun (digits, rest) => (c :: digits, rest)
    else some ([], c :: rest)

/-- A run of at least one digit, underscores left out. -/
def readDigits? (isDigit : Char → Bool) : Text → Option (Text × Text)
  | [] => none
  | c :: rest =>
    if isDigit c then (readMoreDigits? isDigit rest).map fun (digits, rest) => (c :: digits, rest)
    else none

/-- An optional sign, as whether the number is negative. -/
def readSign : Text → Bool × Text
  | '+' :: rest => (false, rest)
  | '-' :: rest => (true, rest)
  | rest => (false, rest)

/-- A decimal whole number without sign: a zero alone, or digits that begin with another one. -/
def readWhole? : Text → Option (Text × Text)
  | '0' :: rest => some (['0'], rest)
  | text => readDigits? Char.isDigit text

/-! ## §2. Whole numbers. -/

/-- Whether a number fits 64 bits with sign. -/
def fitsInt64 (n : Int) : Bool := -9223372036854775808 ≤ n ∧ n ≤ 9223372036854775807

/-- Whether a character is a digit in a base up to sixteen. -/
def isDigitOf (base : Nat) (c : Char) : Bool :=
  match Text.hexDigit? c with
  | some value => value < base
  | none => false

/-- The number that digits write in a base. -/
def valueInBase (base : Nat) (digits : Text) : Nat :=
  digits.foldl (fun value c => base * value + (Text.hexDigit? c).getD 0) 0

/-- A whole number in the given base, behind the letter of the base. -/
def readInBase? (base : Nat) (text : Text) : Option (Int × Text) := do
  let (digits, rest) ← readDigits? (isDigitOf base) text
  let value : Int := valueInBase base digits
  if fitsInt64 value then some (value, rest) else none

/-- A whole number. -/
def readInteger? : Text → Option (Int × Text)
  | '0' :: 'x' :: rest => readInBase? 16 rest
  | '0' :: 'o' :: rest => readInBase? 8 rest
  | '0' :: 'b' :: rest => readInBase? 2 rest
  | text => do
    let (negative, rest) := readSign text
    let (digits, rest) ← readWhole? rest
    let value : Int := Text.digitsValue digits
    let value := if negative then -value else value
    if fitsInt64 value then some (value, rest) else none

/-! ## §3. Floating-point numbers. -/

/-- What a part of a number has: nothing of the kind, a fault, or digits and the rest. -/
inductive Part (α : Type) where
  | absent
  | faulty
  | read (value : α) (rest : Text)

/-- The digits of a fraction. -/
def readFraction : Text → Part Text
  | '.' :: rest =>
    match readDigits? Char.isDigit rest with
    | some (digits, rest) => .read digits rest
    | none => .faulty
  | _ => .absent

/-- The number of an exponent. -/
def readExponent : Text → Part Int
  | [] => .absent
  | c :: rest =>
    if c = 'e' ∨ c = 'E' then
      let (negative, rest) := readSign rest
      match readDigits? Char.isDigit rest with
      | some (digits, rest) =>
        let value : Int := Text.digitsValue digits
        .read (if negative then -value else value) rest
      | none => .faulty
    else .absent

/-- The double nearest to `± whole.fraction · 10 ^ exponent`; infinity is refused. -/
def floatOf? (negative : Bool) (whole fraction : Text) (exponent : Int) : Option Binary64 :=
  match Binary64.ofDecimal
      ⟨negative, Text.digitsValue (whole ++ fraction), exponent - fraction.length⟩ with
  | .infinite false => none
  | value => some value

/-- A number with a fraction, an exponent or both. -/
def readDecimal? (text : Text) : Option (Binary64 × Text) := do
  let (negative, rest) := readSign text
  let (whole, rest) ← readWhole? rest
  match readFraction rest with
  | .faulty => none
  | .read fraction rest =>
    match readExponent rest with
    | .faulty => none
    | .read exponent rest => (floatOf? negative whole fraction exponent).map (·, rest)
    | .absent => (floatOf? negative whole fraction 0).map (·, rest)
  | .absent =>
    match readExponent rest with
    | .read exponent rest => (floatOf? negative whole [] exponent).map (·, rest)
    | _ => none

/-- Infinity or not-a-number, with an optional sign. -/
def readSpecial? (text : Text) : Option (Binary64 × Text) :=
  match readSign text with
  | (negative, 'i' :: 'n' :: 'f' :: rest) => some (.infinite negative, rest)
  | (_, 'n' :: 'a' :: 'n' :: rest) => some (.nan, rest)
  | _ => none

/-! ## §4. Numbers, dates and truth values. -/

/-- A value that begins with a sign or a digit: a date or a time, else a floating-point number,
else a whole number. -/
def readNumeric? (text : Text) : Option (Scalar × Text) :=
  match readDateTime? text with
  | some (value, rest) => some (.dateTime value, rest)
  | none =>
    match readDecimal? text with
    | some (value, rest) => some (.float value, rest)
    | none =>
      match readSpecial? text with
      | some (value, rest) => some (.float value, rest)
      | none => (readInteger? text).map fun (value, rest) => (.integer value, rest)

/-- A truth value. -/
def readBoolean? (text : Text) : Option (Scalar × Text) :=
  match "true".toList.isPrefixOf? text with
  | some rest => some (.boolean true, rest)
  | none => ("false".toList.isPrefixOf? text).map fun rest => (.boolean false, rest)

end YamlDocs.Toml
