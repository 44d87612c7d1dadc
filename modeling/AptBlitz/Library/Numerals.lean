import AptBlitz.Library.TextRules

/-! # Decimal numerals

    A numeral is a text of decimal digits, at least one.  The unsigned parsers
    read a numeral, with or without a `+` before it, as its value, if that is
    one of the type, and nothing else (`parseUnsigned_ok_iff`). -/

namespace RustText

/-- Decimal digits, at least one. -/
def IsNumeral (s : Text) : Prop := s ≠ [] ∧ ∀ c ∈ s, c.isDigit = true

instance (s : Text) : Decidable (IsNumeral s) := inferInstanceAs (Decidable (_ ∧ _))

/-- The number that a numeral writes. -/
def numeralValue (s : Text) : Nat := Nat.ofDigitChars 10 s 0

variable {s t : Text} {c : Char} {n value maxValue : Nat}

theorem isNumeral_natText (n : Nat) : IsNumeral (natText n) :=
  ⟨Nat.toDigits_ne_nil, fun _ hc => Nat.isDigit_of_mem_toDigits (by decide) (by decide) hc⟩

theorem numeralValue_natText (n : Nat) : numeralValue (natText n) = n :=
  Nat.ofDigitChars_ten_toDigits

theorem IsNumeral.not_mem (h : IsNumeral s) (hc : c.isDigit = false) : c ∉ s := by
  intro hmem
  rw [h.2 c hmem] at hc
  cases hc

theorem IsNumeral.trim (h : IsNumeral s) : trim s = s :=
  trim_eq_self fun c hc => isWhitespace_of_isDigit (h.2 c hc)

/-- The digit loop gives up at the digit with which the value is too large. -/
theorem parseDigits_overflow (hdigits : ∀ c ∈ s, c.isDigit = true) (hvalue : value ≤ maxValue)
    (h : maxValue < Nat.ofDigitChars 10 s value) :
    parseDigits maxValue value s = .error .posOverflow := by
  induction s generalizing value with
  | nil =>
      rw [Nat.ofDigitChars_nil] at h
      exact absurd hvalue (not_le.mpr h)
  | cons c s ih =>
      obtain ⟨hc, hrest⟩ := List.forall_mem_cons.mp hdigits
      rw [Nat.ofDigitChars_cons, Nat.mul_comm] at h
      rw [parseDigits, if_pos hc]
      dsimp only
      split
      next => rfl
      next hle => exact ih hrest (not_lt.mp hle) h

/-- **A numeral is its value**, where the type has it. -/
theorem parseUnsigned_numeral (h : IsNumeral s) :
    parseUnsigned maxValue s
      = if numeralValue s ≤ maxValue then .ok (numeralValue s) else .error .posOverflow := by
  rw [parseUnsigned_of_isDigit h.1 h.2]
  by_cases hle : numeralValue s ≤ maxValue
  · rw [if_pos hle]
    exact parseDigits_digits h.2 hle
  · rw [if_neg hle]
    exact parseDigits_overflow h.2 (Nat.zero_le _) (not_le.mp hle)

/-- A numeral is read if its number fits. -/
theorem parseUnsigned_numeral_iff (h : IsNumeral s) :
    parseUnsigned maxValue s = .ok n ↔ numeralValue s = n ∧ n ≤ maxValue := by
  rw [parseUnsigned_numeral h]
  by_cases hle : numeralValue s ≤ maxValue
  · rw [if_pos hle]
    constructor
    · intro hok
      cases hok
      exact ⟨rfl, hle⟩
    · rintro ⟨rfl, -⟩
      rfl
  · rw [if_neg hle]
    constructor
    · intro hok
      cases hok
    · rintro ⟨rfl, hn⟩
      exact absurd hn hle

/-- A `+` may stand before a numeral. -/
theorem parseUnsigned_plus (h : IsNumeral s) :
    parseUnsigned maxValue ('+' :: s) = parseUnsigned maxValue s := by
  rw [parseUnsigned_of_isDigit h.1 h.2]
  refine parseUnsigned.eq_3 _ _ ?_
  intro hnil
  exact h.1 hnil

/-- What the digit loop takes for a number is a numeral, or nothing. -/
theorem isNumeral_of_parseDigits (hne : s ≠ []) (h : parseDigits maxValue value s = .ok n) :
    IsNumeral s := ⟨hne, isDigit_of_parseDigits h⟩

/-- **What the parsers read**: numerals, with or without a `+`. -/
theorem parseUnsigned_ok_iff :
    parseUnsigned maxValue s = .ok n ↔
      ∃ digits, (s = digits ∨ s = '+' :: digits) ∧ IsNumeral digits ∧
        numeralValue digits = n ∧ n ≤ maxValue := by
  constructor
  · intro h
    have hnumeral : ∃ digits, (s = digits ∨ s = '+' :: digits) ∧ IsNumeral digits := by
      rw [parseUnsigned.eq_def] at h
      split at h
      next => cases h
      next => cases h
      next digits hne => exact ⟨digits, Or.inr rfl, isNumeral_of_parseDigits hne h⟩
      next hne _ _ => exact ⟨s, Or.inl rfl, isNumeral_of_parseDigits hne h⟩
    obtain ⟨digits, hs, hdigits⟩ := hnumeral
    refine ⟨digits, hs, hdigits, ?_⟩
    rcases hs with rfl | rfl
    · exact (parseUnsigned_numeral_iff hdigits).mp h
    · rw [parseUnsigned_plus hdigits] at h
      exact (parseUnsigned_numeral_iff hdigits).mp h
  · rintro ⟨digits, rfl | rfl, hdigits, hn⟩
    · exact (parseUnsigned_numeral_iff hdigits).mpr hn
    · rw [parseUnsigned_plus hdigits]
      exact (parseUnsigned_numeral_iff hdigits).mpr hn

end RustText
