/-
  YamlDocs.Toml.DateTime
  ────────────────────────────────
  **DATES AND TIMES.**

  A value is a date, a time, or a date and a time with an optional offset.
  Days have to exist in their month, a minute may have a second 60 and
  fractions of a second are cut off behind nine digits.  The text of a value
  is normalized: `T` between date and time, no zero at the end of a fraction,
  `Z` or a signed offset.
-/
import YamlDocs.Text.Basic

namespace YamlDocs.Toml

/-! ## §1. Values. -/

/-- A day of the calendar. -/
structure Date where
  year : Nat
  month : Nat
  day : Nat
deriving DecidableEq, Repr

/-- A time of day. -/
structure Time where
  hour : Nat
  minute : Nat
  second : Nat
  nanosecond : Nat
deriving DecidableEq, Repr

/-- The distance of a local time from universal time. -/
inductive Offset where
  | utc
  | minutes (count : Int)
deriving DecidableEq, Repr

/-- A date, a time, or both. -/
inductive DateTime where
  | date (date : Date)
  | time (time : Time)
  | both (date : Date) (time : Time) (offset : Option Offset)
deriving DecidableEq, Repr

/-! ## §2. Text. -/

/-- A number with zeros in front up to the given width. -/
def zeroPadded (width n : Nat) : Text :=
  let numeral := Text.ofNat n
  List.replicate (width - numeral.length) '0' ++ numeral

/-- A date as year, month and day. -/
def Date.text (d : Date) : Text :=
  zeroPadded 4 d.year ++ '-' :: zeroPadded 2 d.month ++ '-' :: zeroPadded 2 d.day

/-- The fraction of a second, without zeros at its end. -/
def fractionText (nanosecond : Nat) : Text :=
  if nanosecond = 0 then []
  else '.' :: ((zeroPadded 9 nanosecond).reverse.dropWhile (· == '0')).reverse

/-- A time as hour, minute and second. -/
def Time.text (t : Time) : Text :=
  zeroPadded 2 t.hour ++ ':' :: zeroPadded 2 t.minute ++ ':' :: zeroPadded 2 t.second ++
    fractionText t.nanosecond

/-- An offset as `Z` or as signed hours and minutes. -/
def Offset.text : Offset → Text
  | .utc => ['Z']
  | .minutes count =>
    (if count < 0 then '-' else '+') :: zeroPadded 2 (count.natAbs / 60) ++
      ':' :: zeroPadded 2 (count.natAbs % 60)

/-- The normalized text of a value. -/
def DateTime.text : DateTime → Text
  | .date d => d.text
  | .time t => t.text
  | .both d t offset => d.text ++ 'T' :: t.text ++ (offset.map Offset.text).getD []

/-! ## §3. Reading. -/

/-- The number that the given count of digits writes. -/
def readFixed? (count : Nat) (text : Text) : Option (Nat × Text) :=
  let digits := text.take count
  if digits.length = count ∧ digits.all Char.isDigit then
    some (Text.digitsValue digits, text.drop count)
  else none

/-- What is left behind one expected character. -/
def skipChar? (c : Char) : Text → Option Text
  | x :: rest => if x = c then some rest else none
  | [] => none

/-- A number of two digits that is at most `greatest`. -/
def readBounded? (greatest : Nat) (text : Text) : Option (Nat × Text) := do
  let (n, rest) ← readFixed? 2 text
  if n ≤ greatest then some (n, rest) else none

/-- Whether a year has a 29th of February. -/
def isLeapYear (year : Nat) : Bool := year % 4 = 0 ∧ (year % 100 ≠ 0 ∨ year % 400 = 0)

/-- How many days a month has. -/
def daysInMonth (year month : Nat) : Nat :=
  if month = 2 then (if isLeapYear year then 29 else 28)
  else if month = 4 ∨ month = 6 ∨ month = 9 ∨ month = 11 then 30
  else 31

/-- A date that exists. -/
def readDate? (text : Text) : Option (Date × Text) := do
  let (year, rest) ← readFixed? 4 text
  let rest ← skipChar? '-' rest
  let (month, rest) ← readBounded? 12 rest
  let rest ← skipChar? '-' rest
  let (day, rest) ← readBounded? 31 rest
  if 1 ≤ month ∧ 1 ≤ day ∧ day ≤ daysInMonth year month then some (⟨year, month, day⟩, rest)
  else none

/-- The nanoseconds that the digits of a fraction write. -/
def nanoseconds (digits : Text) : Nat :=
  let kept := digits.take 9
  Text.digitsValue kept * Nat.pow 10 (9 - kept.length)

/-- A fraction of a second, where there is one. -/
def readSecondFraction? : Text → Option (Nat × Text)
  | '.' :: rest =>
    match rest.span Char.isDigit with
    | ([], _) => none
    | (digits, rest) => some (nanoseconds digits, rest)
  | text => some (0, text)

/-- A time of day. -/
def readTime? (text : Text) : Option (Time × Text) := do
  let (hour, rest) ← readBounded? 23 text
  let rest ← skipChar? ':' rest
  let (minute, rest) ← readBounded? 59 rest
  let rest ← skipChar? ':' rest
  let (second, rest) ← readBounded? 60 rest
  let (nanosecond, rest) ← readSecondFraction? rest
  some (⟨hour, minute, second, nanosecond⟩, rest)

/-- The hours and minutes of an offset, as minutes. -/
def readOffsetMinutes? (text : Text) : Option (Nat × Text) := do
  let (hour, rest) ← readBounded? 23 text
  let rest ← skipChar? ':' rest
  let (minute, rest) ← readBounded? 59 rest
  some (60 * hour + minute, rest)

/-- An offset, where there is one. -/
def readOffset? : Text → Option (Option Offset × Text)
  | 'Z' :: rest => some (some .utc, rest)
  | 'z' :: rest => some (some .utc, rest)
  | '+' :: rest => (readOffsetMinutes? rest).map fun (n, rest) => (some (.minutes n), rest)
  | '-' :: rest => (readOffsetMinutes? rest).map fun (n, rest) => (some (.minutes (-n)), rest)
  | rest => some (none, rest)

/-- The time behind a date: it follows a `T`, a `t` or a space. -/
def readTimeBehindDate? : Text → Option (Time × Text)
  | c :: rest => if c = 'T' ∨ c = 't' ∨ c = ' ' then readTime? rest else none
  | [] => none

/-- A date, a time, or both. -/
def readDateTime? (text : Text) : Option (DateTime × Text) :=
  match readDate? text with
  | some (date, rest) =>
    match readTimeBehindDate? rest with
    | some (time, rest) =>
      (readOffset? rest).map fun (offset, rest) => (.both date time offset, rest)
    | none => some (.date date, rest)
  | none => (readTime? text).map fun (time, rest) => (.time time, rest)

/-- The value that a text spells as a whole. -/
def DateTime.ofText? (text : Text) : Option DateTime :=
  match readDateTime? text with
  | some (value, []) => some value
  | _ => none

end YamlDocs.Toml
