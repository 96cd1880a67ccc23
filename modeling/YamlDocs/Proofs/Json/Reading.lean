/-
  YamlDocs.Proofs.Json.Reading
  ────────────────────────────────
  **WRITTEN JSON IS READ BACK.**

  The reader takes what the printer wrote off the front of a text and leaves
  the rest, for every kind of value:

    • strings, one character and its escape after the other
      (`readString?_escapeChar`),
    • numerals, up to the first character that cannot go on with them
      (`readNumber?_ofNat`),
    • containers, by induction on the value: the items of a container are
      shorter than the container, so the bound on the depth never runs out
      (`readsBack`).

  A whole text is therefore read back into the value that it was written for
  (`parse?_pretty`).
-/
import YamlDocs.Json.Reader
import YamlDocs.Proofs.Text.Numeral
import YamlDocs.Proofs.Text.Utf8

namespace YamlDocs.Json

/-! ## §1. Strings. -/

theorem hexDigit?_hexDigit (n : Nat) : Text.hexDigit? (hexDigit n) = some (n % 16) := by
  have hdigit : ∀ d < 16, Text.hexDigit? (Nat.digitChar d) = some d := by decide
  exact hdigit (n % 16) (Nat.mod_lt n (by decide))

/-- Four hexadecimal digits write their number. -/
theorem hexNumber?_hexDigit {n : Nat} (h : n < 0x10000) :
    hexNumber? (hexDigit (n / 0x1000)) (hexDigit (n / 0x100)) (hexDigit (n / 0x10)) (hexDigit n) =
      some n := by
  simp only [hexNumber?, hexDigit?_hexDigit, Option.bind_eq_bind, Option.bind_some]
  congr 1
  omega

/-- An escape of a number below the surrogates is read as one character. -/
theorem readString?_unicodeEscape {n : Nat} (h : n < 0xD800) (rest : Text) :
    readString? (unicodeEscape n ++ rest) = (readString? rest).map (consRead (.ofNat n)) := by
  have hhigh : ¬ (0xD800 ≤ n ∧ n < 0xDC00) := by omega
  have hlow : ¬ (0xDC00 ≤ n ∧ n < 0xE000) := by omega
  simp only [unicodeEscape, List.cons_append, List.nil_append]
  rw [readString?, hexNumber?_hexDigit (by omega)]
  simp only [if_neg hhigh, if_neg hlow]

/-- A character that needs no escape stands for itself. -/
theorem readString?_cons {c : Char} (hquote : c ≠ '"') (hbackslash : c ≠ '\\')
    (hprintable : ¬ c.toNat < 0x20) (rest : Text) :
    readString? (c :: rest) = (readString? rest).map (consRead c) := by
  rw [readString?.eq_5 c rest hquote (fun _ _ _ _ _ h _ => hbackslash h)
    (fun _ _ h _ => hbackslash h), if_neg hprintable]

/-- **A character is read back from its escape.** -/
theorem readString?_escapeChar (c : Char) (rest : Text) :
    readString? (escapeChar false c ++ rest) = (readString? rest).map (consRead c) := by
  unfold escapeChar
  split
  case h_8 hquote hbackslash _ _ _ _ _ =>
    split
    case isTrue hcontrol =>
      have hsmall : c.toNat < 0x20 := by simpa using hcontrol
      have hplane : c.toNat < 0x10000 := by omega
      rw [unicodeEscapes, if_pos hplane, readString?_unicodeEscape (by omega), Char.ofNat_toNat]
    case isFalse hplain =>
      exact readString?_cons hquote hbackslash (fun hsmall => hplain (Or.inl hsmall)) rest
  -- The seven characters with an escape of one letter.
  all_goals rfl

/-- **A string is read back** up to its closing quote. -/
theorem readString?_quoted (value rest : Text) :
    readString? (value.flatMap (escapeChar false) ++ '"' :: rest) = some (value, rest) := by
  induction value with
  | nil => rfl
  | cons c value ih =>
      rw [List.flatMap_cons, List.append_assoc, readString?_escapeChar, ih]
      rfl

/-! ## §2. Numbers. -/

/-- A text with which no number goes on. -/
def EndsNumber (text : Text) : Prop :=
  ∀ c ∈ text.head?, c.isDigit = false ∧ c ≠ '.' ∧ c ≠ 'e' ∧ c ≠ 'E'

theorem endsNumber_cons {c : Char} {rest : Text}
    (h : c.isDigit = false ∧ c ≠ '.' ∧ c ≠ 'e' ∧ c ≠ 'E') : EndsNumber (c :: rest) := by
  intro d hd
  obtain rfl : c = d := Option.some.inj hd
  exact h

theorem EndsNumber.startsOutsideDigits {text : Text} (h : EndsNumber text) :
    Text.StartsOutsideDigits text :=
  fun c hc => (h c hc).1

theorem readFraction?_of_endsNumber {rest : Text} (h : EndsNumber rest) :
    readFraction? rest = some ([], rest) := by
  cases rest with
  | nil => rfl
  | cons c rest =>
      obtain ⟨-, hpoint, -, -⟩ := h c rfl
      unfold readFraction?
      split
      case h_1 heq => exact absurd (List.cons.inj heq).1 hpoint
      case h_2 => rfl

theorem readExponent?_of_endsNumber {rest : Text} (h : EndsNumber rest) :
    readExponent? rest = some ([], rest) := by
  cases rest with
  | nil => rfl
  | cons c rest =>
      obtain ⟨-, -, hsmall, hlarge⟩ := h c rfl
      rw [readExponent?, if_neg fun hletter => hletter.elim hsmall hlarge]

theorem readDigits?_of_span {text digits rest : Text} (hne : digits ≠ [])
    (h : text.span Char.isDigit = (digits, rest)) : readDigits? text = some (digits, rest) := by
  obtain ⟨d, others, rfl⟩ := List.exists_cons_of_ne_nil hne
  unfold readDigits?
  rw [h]

theorem readWhole?_ofNat (n : Nat) {rest : Text} (h : EndsNumber rest) :
    readWhole? (Text.ofNat n ++ rest) = some (Text.ofNat n, rest) := by
  by_cases hzero : n = 0
  · subst hzero
    rfl
  · have hhead := Text.head?_ofNat_ne_zero (Nat.pos_of_ne_zero hzero)
    have hspan := Text.span_ofNat_append n h.startsOutsideDigits
    have hfirst : ∀ others : Text, Text.ofNat n ++ rest = '0' :: others → False := by
      intro others heq
      rw [← List.head?_append_of_ne_nil _ (Text.ofNat_ne_nil n), heq] at hhead
      exact hhead rfl
    rw [readWhole?.eq_2 _ hfirst]
    exact readDigits?_of_span (Text.ofNat_ne_nil n) hspan

/-- **A numeral is read back.** -/
theorem readNumber?_ofNat (n : Nat) {rest : Text} (h : EndsNumber rest) :
    readNumber? (Text.ofNat n ++ rest) = some (Text.ofNat n, rest) := by
  have hminus : ∀ others : Text, Text.ofNat n ++ rest = '-' :: others → False := by
    intro others heq
    have hhead := congrArg List.head? heq
    rw [List.head?_append_of_ne_nil _ (Text.ofNat_ne_nil n)] at hhead
    exact absurd (Text.isDigit_of_mem_ofNat (List.mem_of_head? hhead)) (by decide)
  unfold readNumber?
  split
  case h_1 sign unsigned hsign =>
    -- There is no sign in front of the digits.
    split at hsign
    case h_1 others heq => exact (hminus others heq).elim
    case h_2 =>
      cases hsign
      simp [readWhole?_ofNat n h, readFraction?_of_endsNumber h, readExponent?_of_endsNumber h]

/-! ## §3. Blanks in front. -/

theorem skipGap_append {gap : Text} (h : ∀ c ∈ gap, isGap c = true) (text : Text) :
    skipGap (gap ++ text) = skipGap text :=
  List.dropWhile_append_of_pos h

theorem skipGap_cons_of_isGap {c : Char} (h : isGap c = true) (text : Text) :
    skipGap (c :: text) = skipGap text :=
  List.dropWhile_cons_of_pos h

theorem skipGap_cons {c : Char} (h : isGap c = false) (text : Text) :
    skipGap (c :: text) = c :: text :=
  List.dropWhile_cons_of_neg (by simp [h])

/-- Indentation is passed over. -/
theorem skipGap_indent_append (depth : Nat) (text : Text) :
    skipGap (indent depth ++ text) = skipGap text := by
  refine skipGap_append (fun c hc => ?_) text
  rw [List.eq_of_mem_replicate hc]
  rfl

/-- The closing bracket of a container stands on a line of its own. -/
theorem skipGap_closing {c : Char} (h : isGap c = false) (depth : Nat) (rest : Text) :
    skipGap ('\n' :: (indent depth ++ c :: rest)) = c :: rest := by
  rw [skipGap_cons_of_isGap rfl, skipGap_indent_append, skipGap_cons h]

theorem skipGap_skipGap (text : Text) : skipGap (skipGap text) = skipGap text :=
  List.dropWhile_idempotent isGap text

section Gap

variable {text other : Text}

/-- **Blanks in front of a value do not matter.** -/
theorem readValue?_congr_gap (h : skipGap text = skipGap other) (fuel : Nat) :
    readValue? fuel text = readValue? fuel other := by
  cases fuel with
  | zero => rfl
  | succ fuel => rw [readValue?, readValue?, h]

theorem readItems?_congr_gap (h : skipGap text = skipGap other) (fuel : Nat) :
    readItems? fuel text = readItems? fuel other := by
  cases fuel with
  | zero => rfl
  | succ fuel => rw [readItems?, readItems?, readValue?_congr_gap h]

/-- A line feed in front of items. -/
theorem readItems?_feed (fuel : Nat) (text : Text) :
    readItems? fuel ('\n' :: text) = readItems? fuel text :=
  readItems?_congr_gap (skipGap_cons_of_isGap rfl text) fuel

theorem readMembers?_congr_gap (h : skipGap text = skipGap other) (fuel : Nat) :
    readMembers? fuel text = readMembers? fuel other := by
  cases fuel with
  | zero => rfl
  | succ fuel => rw [readMembers?, readMembers?, h]

/-- A line feed in front of members. -/
theorem readMembers?_feed (fuel : Nat) (text : Text) :
    readMembers? fuel ('\n' :: text) = readMembers? fuel text :=
  readMembers?_congr_gap (skipGap_cons_of_isGap rfl text) fuel

end Gap

/-! ## §4. Items and members. -/

/-- What a value writes at any depth is taken off the front of a text. -/
def ReadsBack (value : Json) : Prop :=
  ∀ (depth fuel : Nat) (rest : Text), EndsNumber rest → (pretty depth value).length < fuel →
    readValue? fuel (pretty depth value ++ rest) = some (value, rest)

section Step

variable {fuel : Nat} {text behind rest : Text}

theorem readItems?_last {item : Json} (hread : readValue? fuel text = some (item, behind))
    (hend : skipGap behind = ']' :: rest) : readItems? (fuel + 1) text = some ([item], rest) := by
  rw [readItems?, hread]
  simp only [Option.bind_eq_bind, Option.bind_some, hend]

theorem readItems?_next {item : Json} {items : List Json} {more : Text}
    (hread : readValue? fuel text = some (item, behind)) (hcomma : skipGap behind = ',' :: more)
    (hmore : readItems? fuel more = some (items, rest)) :
    readItems? (fuel + 1) text = some (item :: items, rest) := by
  rw [readItems?, hread]
  simp only [Option.bind_eq_bind, Option.bind_some, hcomma, hmore]

end Step

/-- **Items are read back** if each of them is. -/
theorem readItems?_prettyItems {depth : Nat} {rest closing : Text} (hclosing : EndsNumber closing)
    (hend : skipGap closing = ']' :: rest) {items : List Json} (hne : items ≠ [])
    (h : ∀ item ∈ items, ReadsBack item) {fuel : Nat}
    (hfuel : (prettyItems (depth + 1) items).length ≤ fuel) :
    readItems? fuel (prettyItems (depth + 1) items ++ closing) = some (items, rest) := by
  induction items generalizing fuel with
  | nil => exact absurd rfl hne
  | cons item others ih =>
      obtain ⟨hitem, hothers⟩ := List.forall_mem_cons.mp h
      -- The indentation makes an item shorter than the line that it stands on.
      cases others with
      | nil =>
          simp only [prettyItems, indent, List.length_append, List.length_replicate] at hfuel
          obtain ⟨fuel, rfl⟩ : ∃ n, fuel = n + 1 := ⟨fuel - 1, by omega⟩
          rw [prettyItems, List.append_assoc]
          refine readItems?_last ?_ hend
          rw [readValue?_congr_gap (skipGap_indent_append (depth + 1) _)]
          exact hitem (depth + 1) fuel closing hclosing (by omega)
      | cons next others =>
          simp only [prettyItems, indent, List.length_append, List.length_replicate,
            List.length_cons] at hfuel
          obtain ⟨fuel, rfl⟩ : ∃ n, fuel = n + 1 := ⟨fuel - 1, by omega⟩
          have hmore : readItems? fuel (prettyItems (depth + 1) (next :: others) ++ closing) =
              some (next :: others, rest) := ih (List.cons_ne_nil _ _) hothers (by omega)
          rw [← readItems?_feed] at hmore
          have hcomma : EndsNumber (',' :: '\n' ::
              (prettyItems (depth + 1) (next :: others) ++ closing)) := endsNumber_cons (by decide)
          rw [prettyItems.eq_3 _ _ _ (List.cons_ne_nil _ _)]
          simp only [List.append_assoc, List.cons_append]
          refine readItems?_next ?_ (skipGap_cons (by decide) _) hmore
          rw [readValue?_congr_gap (skipGap_indent_append (depth + 1) _)]
          exact hitem (depth + 1) fuel _ hcomma (by omega)

section Step

variable {fuel : Nat} {key text behind rest : Text} {value : Json}

/-- A key, a colon and a value are read in front of what follows. -/
theorem readMembers?_succ {members : List (Text × Json)}
    (hread : readValue? fuel text = some (value, behind))
    (hnext : skipGap behind = '\x7d' :: rest ∧ members = [] ∨
      ∃ more, skipGap behind = ',' :: more ∧ readMembers? fuel more = some (members, rest)) :
    readMembers? (fuel + 1) (quote false key ++ ':' :: ' ' :: text) =
      some ((key, value) :: members, rest) := by
  have hquote : skipGap (quote false key ++ ':' :: ' ' :: text) =
      '"' :: (key.flatMap (escapeChar false) ++ '"' :: ':' :: ' ' :: text) := by
    unfold quote
    simp [skipGap_cons (show isGap '"' = false from rfl)]
  have hcolon : skipGap (':' :: ' ' :: text) = ':' :: ' ' :: text := skipGap_cons rfl _
  have hblank : readValue? fuel (' ' :: text) = readValue? fuel text :=
    readValue?_congr_gap (skipGap_cons_of_isGap rfl text) fuel
  rw [readMembers?, hquote]
  simp only [readString?_quoted, Option.bind_eq_bind, Option.bind_some, hcolon, hblank, hread]
  rcases hnext with ⟨hend, rfl⟩ | ⟨more, hcomma, hmore⟩
  · simp only [hend]
  · simp only [hcomma, hmore, Option.bind_some]

end Step

/-- **Members are read back** if the value of each of them is. -/
theorem readMembers?_prettyMembers {depth : Nat} {rest closing : Text}
    (hclosing : EndsNumber closing) (hend : skipGap closing = '\x7d' :: rest)
    {members : List (Text × Json)} (hne : members ≠ [])
    (h : ∀ member ∈ members, ReadsBack member.2) {fuel : Nat}
    (hfuel : (prettyMembers (depth + 1) members).length ≤ fuel) :
    readMembers? fuel (prettyMembers (depth + 1) members ++ closing) = some (members, rest) := by
  induction members generalizing fuel with
  | nil => exact absurd rfl hne
  | cons member others ih =>
      obtain ⟨key, value⟩ := member
      obtain ⟨hvalue, hothers⟩ := List.forall_mem_cons.mp h
      replace hvalue : ReadsBack value := hvalue
      cases others with
      | nil =>
          simp only [prettyMembers, indent, List.length_append, List.length_replicate,
            List.length_cons] at hfuel
          obtain ⟨fuel, rfl⟩ : ∃ n, fuel = n + 1 := ⟨fuel - 1, by omega⟩
          have hread := hvalue (depth + 1) fuel closing hclosing (by omega)
          rw [prettyMembers, List.append_assoc, List.append_assoc,
            readMembers?_congr_gap (skipGap_indent_append (depth + 1) _)]
          exact readMembers?_succ hread (Or.inl ⟨hend, rfl⟩)
      | cons next others =>
          simp only [prettyMembers, indent, List.length_append, List.length_replicate,
            List.length_cons] at hfuel
          obtain ⟨fuel, rfl⟩ : ∃ n, fuel = n + 1 := ⟨fuel - 1, by omega⟩
          have hmore : readMembers? fuel (prettyMembers (depth + 1) (next :: others) ++ closing) =
              some (next :: others, rest) := ih (List.cons_ne_nil _ _) hothers (by omega)
          rw [← readMembers?_feed] at hmore
          have hcomma : EndsNumber (',' :: '\n' ::
              (prettyMembers (depth + 1) (next :: others) ++ closing)) :=
            endsNumber_cons (by decide)
          have hread := hvalue (depth + 1) fuel _ hcomma (by omega)
          rw [prettyMembers.eq_3 _ _ _ _ (List.cons_ne_nil _ _)]
          simp only [List.append_assoc, List.cons_append]
          rw [readMembers?_congr_gap (skipGap_indent_append (depth + 1) _)]
          exact readMembers?_succ hread (Or.inr ⟨_, skipGap_cons (by decide) _, hmore⟩)

/-! ## §5. Values. -/

/-- All numbers in a value are numerals of natural numbers. -/
inductive HasNumerals : Json → Prop
  | null : HasNumerals .null
  | boolean (value : Bool) : HasNumerals (.boolean value)
  | number (n : Nat) : HasNumerals (.number (Text.ofNat n))
  | string (value : Text) : HasNumerals (.string value)
  | array {items : List Json} (hitems : ∀ item ∈ items, HasNumerals item) :
      HasNumerals (.array items)
  | object {members : List (Text × Json)} (hmembers : ∀ member ∈ members, HasNumerals member.2) :
      HasNumerals (.object members)

theorem isGap_of_isDigit {c : Char} (h : c.isDigit = true) : isGap c = false := by
  rw [Bool.eq_false_iff]
  intro hgap
  simp only [isGap, Bool.or_eq_true, beq_iff_eq] at hgap
  rcases hgap with ((rfl | rfl) | rfl) | rfl <;> exact nomatch h

/-- A value begins with a character that is neither a blank nor the end of an array. -/
theorem HasNumerals.exists_pretty_eq_cons {value : Json} (h : value.HasNumerals) (depth : Nat) :
    ∃ c others, pretty depth value = c :: others ∧ isGap c = false ∧ c ≠ ']' := by
  cases h with
  | null => exact ⟨'n', "ull".toList, rfl, rfl, by decide⟩
  | boolean value =>
      cases value with
      | true => exact ⟨'t', "rue".toList, rfl, rfl, by decide⟩
      | false => exact ⟨'f', "alse".toList, rfl, rfl, by decide⟩
  | number n =>
      obtain ⟨d, digits, hdigits⟩ := List.exists_cons_of_ne_nil (Text.ofNat_ne_nil n)
      have hd : d.isDigit = true := Text.isDigit_of_mem_ofNat (hdigits ▸ List.mem_cons_self)
      refine ⟨d, digits, hdigits, isGap_of_isDigit hd, ?_⟩
      rintro rfl
      exact nomatch hd
  | string value => exact ⟨'"', _, rfl, rfl, by decide⟩
  | @array items _ =>
      cases items with
      | nil => exact ⟨'[', _, rfl, rfl, by decide⟩
      | cons item others => exact ⟨'[', _, rfl, rfl, by decide⟩
  | @object members _ =>
      cases members with
      | nil => exact ⟨'\x7b', _, rfl, rfl, by decide⟩
      | cons member others => exact ⟨'\x7b', _, rfl, rfl, by decide⟩

/-- The first item of an array is none that its closing bracket could be taken for. -/
theorem head?_skipGap_prettyItems {item : Json} (h : item.HasNumerals) (others : List Json)
    (depth : Nat) (closing : Text) :
    (skipGap (prettyItems depth (item :: others) ++ closing)).head? ≠ some ']' := by
  obtain ⟨c, text, htext, hgap, hbracket⟩ := h.exists_pretty_eq_cons depth
  cases others with
  | nil =>
      rw [prettyItems, List.append_assoc, skipGap_indent_append, htext, List.cons_append,
        skipGap_cons hgap]
      exact fun hhead => hbracket (Option.some.inj hhead)
  | cons next others =>
      rw [prettyItems.eq_3 _ _ _ (List.cons_ne_nil _ _), List.append_assoc, List.append_assoc,
        skipGap_indent_append, htext, List.cons_append, skipGap_cons hgap]
      exact fun hhead => hbracket (Option.some.inj hhead)

theorem head?_skipGap_prettyMembers (member : Text × Json) (others : List (Text × Json))
    (depth : Nat) (closing : Text) :
    (skipGap (prettyMembers depth (member :: others) ++ closing)).head? ≠ some '\x7d' := by
  obtain ⟨key, value⟩ := member
  have hquote (text : Text) : skipGap (quote false key ++ text) = quote false key ++ text :=
    skipGap_cons (by decide) _
  cases others with
  | nil =>
      rw [prettyMembers, List.append_assoc, List.append_assoc, skipGap_indent_append, hquote]
      exact fun hhead => nomatch Option.some.inj hhead
  | cons next others =>
      rw [prettyMembers.eq_3 _ _ _ _ (List.cons_ne_nil _ _)]
      simp only [List.append_assoc]
      rw [skipGap_indent_append, hquote]
      exact fun hhead => nomatch Option.some.inj hhead

section Value

variable {fuel : Nat} {text rest : Text}

theorem readValue?_string (value : Text) :
    readValue? (fuel + 1) (quote false value ++ rest) = some (.string value, rest) := by
  have hquote : quote false value ++ rest =
      '"' :: (value.flatMap (escapeChar false) ++ '"' :: rest) := by
    simp [quote]
  rw [hquote, readValue?, skipGap_cons (by decide)]
  simp only
  rw [readString?_quoted]
  rfl

theorem readValue?_number (n : Nat) (h : EndsNumber rest) :
    readValue? (fuel + 1) (Text.ofNat n ++ rest) = some (.number (Text.ofNat n), rest) := by
  have hread := readNumber?_ofNat n h
  obtain ⟨d, digits, hdigits⟩ := List.exists_cons_of_ne_nil (Text.ofNat_ne_nil n)
  have hd : d.isDigit = true := Text.isDigit_of_mem_ofNat (hdigits ▸ List.mem_cons_self)
  rw [hdigits, List.cons_append] at hread ⊢
  rw [readValue?, skipGap_cons (isGap_of_isDigit hd)]
  -- No other kind of value begins with a digit.
  split
  case h_7 => rw [hread]; rfl
  all_goals
    rename_i heq
    obtain rfl := (List.cons.inj heq).1
    exact nomatch hd

theorem readValue?_array {items : List Json} (hopen : (skipGap text).head? ≠ some ']')
    (hitems : readItems? fuel text = some (items, rest)) :
    readValue? (fuel + 1) ('[' :: text) = some (.array items, rest) := by
  rw [readValue?, skipGap_cons (by decide)]
  simp only
  split
  case h_1 heq => exact absurd (congrArg List.head? heq) hopen
  case h_2 =>
    rw [readItems?_congr_gap (skipGap_skipGap text), hitems]
    rfl

theorem readValue?_object {members : List (Text × Json)}
    (hopen : (skipGap text).head? ≠ some '\x7d')
    (hmembers : readMembers? fuel text = some (members, rest)) :
    readValue? (fuel + 1) ('\x7b' :: text) = some (.object members, rest) := by
  rw [readValue?, skipGap_cons (by decide)]
  simp only
  split
  case h_1 heq => exact absurd (congrArg List.head? heq) hopen
  case h_2 =>
    rw [readMembers?_congr_gap (skipGap_skipGap text), hmembers]
    rfl

end Value

/-- The reader has a step left for a value that is shorter than its bound. -/
theorem readsBack_of_succ {value : Json}
    (h : ∀ (depth fuel : Nat) (rest : Text), EndsNumber rest → (pretty depth value).length ≤ fuel →
      readValue? (fuel + 1) (pretty depth value ++ rest) = some (value, rest)) :
    ReadsBack value := by
  intro depth fuel rest hrest hfuel
  obtain ⟨fuel, rfl⟩ : ∃ n, fuel = n + 1 := ⟨fuel - 1, by omega⟩
  exact h depth fuel rest hrest (by omega)

/-- **Every value is read back** from what it writes. -/
theorem HasNumerals.readsBack {value : Json} (h : value.HasNumerals) : ReadsBack value := by
  induction h with
  | null => exact readsBack_of_succ fun depth fuel rest _ _ => rfl
  | boolean value =>
      cases value with
      | true => exact readsBack_of_succ fun depth fuel rest _ _ => rfl
      | false => exact readsBack_of_succ fun depth fuel rest _ _ => rfl
  | number n => exact readsBack_of_succ fun depth fuel rest hrest _ => readValue?_number n hrest
  | string value => exact readsBack_of_succ fun depth fuel rest _ _ => readValue?_string value
  | @array items hitems ih =>
      refine readsBack_of_succ fun depth fuel rest _ hfuel => ?_
      cases items with
      | nil => rfl
      | cons item others =>
          have hitem := (List.forall_mem_cons.mp hitems).1
          simp only [pretty, List.length_cons, List.length_append, List.cons_append,
            List.append_assoc, List.nil_append] at hfuel ⊢
          refine readValue?_array ?_ ?_
          · rw [skipGap_cons_of_isGap rfl]
            exact head?_skipGap_prettyItems hitem others (depth + 1) _
          · rw [readItems?_feed]
            exact readItems?_prettyItems (endsNumber_cons (by decide))
              (skipGap_closing (by decide) depth rest) (List.cons_ne_nil _ _) ih (by omega)
  | @object members hmembers ih =>
      refine readsBack_of_succ fun depth fuel rest _ hfuel => ?_
      cases members with
      | nil => rfl
      | cons member others =>
          simp only [pretty, List.length_cons, List.length_append, List.cons_append,
            List.append_assoc, List.nil_append] at hfuel ⊢
          refine readValue?_object ?_ ?_
          · rw [skipGap_cons_of_isGap rfl]
            exact head?_skipGap_prettyMembers member others (depth + 1) _
          · rw [readMembers?_feed]
            exact readMembers?_prettyMembers (endsNumber_cons (by decide))
              (skipGap_closing (by decide) depth rest) (List.cons_ne_nil _ _) ih (by omega)

/-! ## §6. Whole texts. -/

/-- **A value is read back from its text.** -/
theorem parse?_pretty {value : Json} (h : value.HasNumerals) (depth : Nat) :
    parse? (pretty depth value) = some value := by
  have hread := h.readsBack depth ((pretty depth value).length + 1) []
    (fun _ hc => absurd hc (by simp)) (by omega)
  rw [List.append_nil] at hread
  unfold parse?
  rw [hread]
  rfl

end YamlDocs.Json
