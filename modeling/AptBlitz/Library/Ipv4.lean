import AptBlitz.Library.TextRules
import Mathlib.Data.Nat.Bitwise

/-! # IPv4 addresses and networks

    An address by its four octets, as the number of 32 bits that they are and
    as the text of decimal numbers with dots between them.  A network is an
    address with the number of the bits that count.

    The first bits of two addresses, in whole octets, are the same when the
    first octets are (`sameBits_octets`). -/

namespace Ipv4

open RustText

/-- An IPv4 address, by its octets. -/
structure Address where
  a : UInt8
  b : UInt8
  c : UInt8
  d : UInt8
  deriving DecidableEq, Repr

namespace Address

/-- The octets as numbers. -/
def octets (x : Address) : List Nat := [x.a.toNat, x.b.toNat, x.c.toNat, x.d.toNat]

/-- The address as a number of 32 bits. -/
def value (x : Address) : Nat :=
  ((x.a.toNat * 256 + x.b.toNat) * 256 + x.c.toNat) * 256 + x.d.toNat

/-- The dotted quad. -/
def text (x : Address) : Text := join ['.'] (x.octets.map natText)

end Address

/-- `a.b.c.d/n`. -/
structure Network where
  base : Address
  bits : Nat
  bits_le : bits ≤ 32

/-- The network as it is written. -/
def Network.text (r : Network) : Text := r.base.text ++ '/' :: natText r.bits

/-- The first `n` bits are the same. -/
def SameBits (n : Nat) (x y : Address) : Prop :=
  ∀ i < n, x.value.testBit (31 - i) = y.value.testBit (31 - i)

instance (n : Nat) (x y : Address) : Decidable (SameBits n x y) :=
  inferInstanceAs (Decidable (∀ i < n, _))

variable {x y : Address} {n m : Nat}

/-! ## Bits and octets -/

/-- An address is a number of 32 bits. -/
theorem value_lt (x : Address) : x.value < 2 ^ 32 := by
  have ha := x.a.toNat_lt
  have hb := x.b.toNat_lt
  have hc := x.c.toNat_lt
  have hd := x.d.toNat_lt
  rw [Address.value]
  omega

/-- The first bits are what is left without the others. -/
theorem sameBits_iff (hn : n ≤ 32) :
    SameBits n x y ↔ x.value / 2 ^ (32 - n) = y.value / 2 ^ (32 - n) := by
  constructor
  · intro h
    refine Nat.eq_of_testBit_eq fun j => ?_
    rw [Nat.testBit_div_two_pow, Nat.testBit_div_two_pow]
    by_cases hj : j < n
    · have hbit := h (n - 1 - j) (by omega)
      have hpos : 31 - (n - 1 - j) = j + (32 - n) := by omega
      rwa [hpos] at hbit
    · -- there is no bit so high
      have hhigh : ∀ z : Address, z.value.testBit (j + (32 - n)) = false := by
        intro z
        refine Nat.testBit_lt_two_pow (lt_of_lt_of_le (value_lt z) ?_)
        exact Nat.pow_le_pow_right (by decide) (by omega)
      rw [hhigh, hhigh]
  · intro h i hi
    have hbit := congrArg (fun v => v.testBit (n - 1 - i)) h
    rw [Nat.testBit_div_two_pow, Nat.testBit_div_two_pow] at hbit
    have hpos : n - 1 - i + (32 - n) = 31 - i := by omega
    rwa [hpos] at hbit

/-- **Whole octets** of bits are the same when the octets are. -/
theorem sameBits_octets (hm : m ≤ 4) :
    SameBits (8 * m) x y ↔ x.octets.take m = y.octets.take m := by
  have hx := value_lt x
  have hy := value_lt y
  have hxb := x.b.toNat_lt
  have hxc := x.c.toNat_lt
  have hxd := x.d.toNat_lt
  have hyb := y.b.toNat_lt
  have hyc := y.c.toNat_lt
  have hyd := y.d.toNat_lt
  rw [sameBits_iff (by omega)]
  simp only [Address.value, Address.octets] at *
  have hcases : m = 0 ∨ m = 1 ∨ m = 2 ∨ m = 3 ∨ m = 4 := by omega
  rcases hcases with rfl | rfl | rfl | rfl | rfl
  · simp only [List.take_zero, iff_true]
    omega
  · simp only [List.take_succ_cons, List.take_zero, List.cons.injEq, and_true]
    omega
  · simp only [List.take_succ_cons, List.take_zero, List.cons.injEq, and_true]
    omega
  · simp only [List.take_succ_cons, List.take_zero, List.cons.injEq, and_true]
    omega
  · simp only [List.take_succ_cons, List.take_zero, List.cons.injEq, and_true]
    omega

/-! ## Texts -/

theorem isDigit_of_mem_natText {c : Char} (h : c ∈ natText n) : c.isDigit = true :=
  Nat.isDigit_of_mem_toDigits (by decide) (by decide) h

theorem not_mem_natText {c : Char} (hc : c.isDigit = false) : c ∉ natText n := by
  intro hmem
  rw [isDigit_of_mem_natText hmem] at hc
  cases hc

/-- A dotted quad is of digits and dots. -/
theorem of_mem_text {c : Char} (h : c ∈ x.text) : c = '.' ∨ c.isDigit = true := by
  rcases mem_join h with hdot | ⟨part, hpart, hc⟩
  · exact Or.inl hdot
  · obtain ⟨o, -, rfl⟩ := List.mem_map.mp hpart
    exact Or.inr (isDigit_of_mem_natText hc)

/-- An address is written without a slash. -/
theorem slash_not_mem_text (x : Address) : '/' ∉ x.text := by
  intro hmem
  rcases of_mem_text hmem with hdot | hdigit
  · exact absurd hdot (by decide)
  · exact absurd hdigit (by decide)

/-- The text of an address is cut at its dots. -/
theorem split_text (x : Address) : split '.' x.text = x.octets.map natText := by
  refine split_join nofun fun part hpart => ?_
  obtain ⟨o, -, rfl⟩ := List.mem_map.mp hpart
  exact not_mem_natText (by decide)

theorem dot_mem_text (x : Address) : '.' ∈ x.text := by
  show '.' ∈ natText _ ++ '.' :: _
  exact List.mem_append_right _ List.mem_cons_self

/-- A dotted quad begins with a digit. -/
theorem text_eq_cons (x : Address) : ∃ c rest, x.text = c :: rest ∧ c.isDigit = true := by
  obtain ⟨c, rest, hcons⟩ := List.exists_cons_of_ne_nil
    (show natText x.a.toNat ≠ [] from Nat.toDigits_ne_nil)
  refine ⟨c, rest ++ '.' :: join ['.'] ([x.b.toNat, x.c.toNat, x.d.toNat].map natText), ?_, ?_⟩
  · show natText x.a.toNat ++ _ = _
    rw [hcons]
    rfl
  · exact isDigit_of_mem_natText (hcons ▸ List.mem_cons_self)

end Ipv4
