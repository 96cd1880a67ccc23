/-
  YamlDocs.Proofs.Text.Numeral
  ────────────────────────────────
  **DECIMAL NUMERALS.**

  The numeral of a natural number is a run of digits that is not empty, does
  not begin with a zero unless it is one, and has the number as its value.
  So different numbers have different numerals, also where something else
  than a digit follows (`ofNat_append_inj`).
-/
import YamlDocs.Proofs.Text.Trim

namespace YamlDocs.Text

/-! ## §1. Digits. -/

theorem isDigit_of_mem_ofNat {n : Nat} {c : Char} (h : c ∈ ofNat n) : c.isDigit = true :=
  Nat.isDigit_of_mem_toDigits (by decide) (by decide) h

theorem ofNat_ne_nil (n : Nat) : ofNat n ≠ [] := Nat.toDigits_ne_nil

theorem digitsValue_ofNat (n : Nat) : digitsValue (ofNat n) = n := Nat.ofDigitChars_ten_toDigits

theorem ofNat_injective {m n : Nat} (h : ofNat m = ofNat n) : m = n := by
  rw [← digitsValue_ofNat m, h, digitsValue_ofNat]

/-- **No zero in front**, but for zero itself. -/
theorem head?_ofNat_ne_zero {n : Nat} (h : 0 < n) : (ofNat n).head? ≠ some '0' := by
  -- On the number without its last digit.
  induction n using Nat.strongRecOn with
  | ind n ih =>
      unfold ofNat at ih ⊢
      rw [Nat.toDigits_eq_if (by decide)]
      split
      case isTrue hsmall =>
        have hdigit : ∀ d < 10, 0 < d → Nat.digitChar d ≠ '0' := by decide
        intro hzero
        exact hdigit n hsmall h (Option.some.inj hzero)
      case isFalse hlarge =>
        rw [List.head?_append_of_ne_nil _ Nat.toDigits_ne_nil]
        exact ih (n / 10) (by omega) (by omega)

/-! ## §2. A numeral in front of something else. -/

/-- A text that does not begin with a digit. -/
def StartsOutsideDigits (text : Text) : Prop := ∀ c ∈ text.head?, c.isDigit = false

theorem span_ofNat_append (n : Nat) {rest : Text} (hrest : StartsOutsideDigits rest) :
    (ofNat n ++ rest).span Char.isDigit = (ofNat n, rest) :=
  span_append (fun _ => isDigit_of_mem_ofNat) hrest

/-- **A numeral is read off a text** that goes on with something else than a digit. -/
theorem ofNat_append_inj {m n : Nat} {rest other : Text} (hrest : StartsOutsideDigits rest)
    (hother : StartsOutsideDigits other) (h : ofNat m ++ rest = ofNat n ++ other) :
    m = n ∧ rest = other := by
  obtain ⟨hnumeral, hsame⟩ := run_append_inj (fun _ => isDigit_of_mem_ofNat) hrest
    (fun _ => isDigit_of_mem_ofNat) hother h
  exact ⟨ofNat_injective hnumeral, hsame⟩

end YamlDocs.Text
