import AptBlitz.Library.TextRules
import Mathlib

/-! # Letter case

    Texts in lower and in upper case, for the letters of ASCII, and what the
    case leaves as it is. -/

namespace RustText

/-- `str::to_ascii_lowercase`. -/
def lower (s : Text) : Text := s.map Char.toLower

/-- `str::to_ascii_uppercase`. -/
def upper (s : Text) : Text := s.map Char.toUpper

variable {c d : Char} {s t : Text}

@[simp] theorem lower_lower (s : Text) : lower (lower s) = lower s := by
  rw [lower, lower, List.map_map]
  exact List.map_congr_left fun c _ => Char.toLower_toLower_eq_toLower c

@[simp] theorem lower_upper (s : Text) : lower (upper s) = lower s := by
  rw [lower, lower, upper, List.map_map]
  exact List.map_congr_left fun c _ => Char.toLower_toUpper_eq_toLower c

theorem lower_append (s t : Text) : lower (s ++ t) = lower s ++ lower t := List.map_append

/-- A letter changes by 32. -/
theorem toLower_cases (c : Char) :
    c.toLower = c ∨ 65 ≤ c.toNat ∧ c.toNat ≤ 90 ∧ c.toLower.toNat = c.toNat + 32 := by
  cases hc : c.isUpper with
  | false => exact Or.inl (Char.toLower_eq_of_not_isUpper (by rw [hc]; nofun))
  | true =>
      have hrange : 65 ≤ c.toNat ∧ c.toNat ≤ 90 := by
        simpa [Char.isUpper, UInt32.le_iff_toNat_le] using hc
      refine Or.inr ⟨hrange.1, hrange.2, ?_⟩
      rw [Char.toLower_eq_of_isUpper hc, Char.toNat_ofNat, if_pos]
      left
      omega

/-- What is no letter is no letter in the other case. -/
theorem eq_of_toLower_eq (hd : d.toNat < 97) (h : c.toLower = d) : c = d := by
  rcases toLower_cases c with heq | ⟨hle, -, hnat⟩
  · rw [← heq, h]
  · rw [h] at hnat
    omega

/-- A character below the letters stays what it is. -/
theorem mem_of_mem_lower (hd : d.toNat < 97) (h : d ∈ lower s) : d ∈ s := by
  obtain ⟨c, hc, hlower⟩ := List.mem_map.mp h
  rw [← eq_of_toLower_eq hd hlower]
  exact hc

/-- Case does not make a character that is no letter. -/
theorem mem_of_lower_eq (hd : d.toNat < 97) (hlower : d.toLower = d) (h : lower s = lower t)
    (hmem : d ∈ s) : d ∈ t := by
  refine mem_of_mem_lower hd (h ▸ ?_)
  rw [← hlower]
  exact List.mem_map_of_mem hmem

/-- Blanks have no case. -/
theorem isWhitespace_toLower (c : Char) : isWhitespace c.toLower = isWhitespace c := by
  rcases toLower_cases c with heq | ⟨hle, hge, hnat⟩
  · rw [heq]
  · have hspace : ∀ n, 65 ≤ n → n ≤ 122 →
        (n == 0x20 || (decide (0x09 ≤ n) && decide (n ≤ 0x0D)) || n == 0x85 || n == 0xA0 ||
          n == 0x1680 || (decide (0x2000 ≤ n) && decide (n ≤ 0x200A)) || n == 0x2028 ||
          n == 0x2029 || n == 0x202F || n == 0x205F || n == 0x3000) = false := by
      intro n hn hn'
      simp only [Bool.or_eq_false_iff, Bool.and_eq_false_iff, beq_eq_false_iff_ne,
        decide_eq_false_iff_not]
      omega
    rw [isWhitespace, isWhitespace, hspace _ (by omega) (by omega), hspace _ (by omega) (by omega)]

/-- Digits have no case. -/
theorem isDigit_toLower (c : Char) : c.toLower.isDigit = c.isDigit := by
  rcases toLower_cases c with heq | ⟨hle, hge, hnat⟩
  · rw [heq]
  · have hdigit : ∀ d : Char, 65 ≤ d.toNat → d.isDigit = false := by
      intro d hd
      refine Bool.eq_false_iff.mpr fun h => ?_
      have hrange : 48 ≤ d.toNat ∧ d.toNat ≤ 57 := Char.isDigit_iff_toNat.mp h
      omega
    rw [hdigit c hle, hdigit c.toLower (by omega)]

theorem isWhitespace_toUpper (c : Char) : isWhitespace c.toUpper = isWhitespace c := by
  rw [← isWhitespace_toLower, Char.toLower_toUpper_eq_toLower, isWhitespace_toLower]

/-- What does not touch blanks leaves them at the front. -/
theorem dropWhile_map {f : Char → Char} (hf : ∀ c, isWhitespace (f c) = isWhitespace c) (s : Text) :
    (s.map f).dropWhile isWhitespace = (s.dropWhile isWhitespace).map f := by
  induction s with
  | nil => rfl
  | cons c s ih =>
      rw [List.map_cons, List.dropWhile_cons, List.dropWhile_cons, hf]
      split
      · exact ih
      · rfl

/-- What does not touch blanks may come before the trim or after it. -/
theorem trim_map {f : Char → Char} (hf : ∀ c, isWhitespace (f c) = isWhitespace c) (s : Text) :
    trim (s.map f) = (trim s).map f := by
  rw [trim, trim, dropWhile_map hf, ← List.map_reverse, dropWhile_map hf, ← List.map_reverse]

/-- Lower case and trim, in either order. -/
theorem lower_trim (s : Text) : lower (trim s) = trim (lower s) :=
  (trim_map isWhitespace_toLower s).symm

/-- Upper case and trim, in either order. -/
theorem upper_trim (s : Text) : upper (trim s) = trim (upper s) :=
  (trim_map isWhitespace_toUpper s).symm

/-- A text in upper case has no lower-case letter. -/
theorem not_isLower_of_mem_upper (h : c ∈ upper s) : c.isLower = false := by
  obtain ⟨d, -, rfl⟩ := List.mem_map.mp h
  exact Char.isLower_toUpper_eq_false d

end RustText
