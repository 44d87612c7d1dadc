import Mathlib.Algebra.Ring.Int.Defs
import Mathlib.Algebra.Ring.Nat
import Mathlib.Data.Int.Order.Basic

/-! # Arithmetic of `i64`

    The values of an `i64` are the integers of a range, `InRange`.  A result
    outside of it is wrapped, by a period of 2^64, or clamped to the range;
    inside of it both are exact. -/

namespace I64

/-- An `i64`. -/
def InRange (i : Int) : Prop := -2 ^ 63 ≤ i ∧ i < 2 ^ 63

instance (i : Int) : Decidable (InRange i) := inferInstanceAs (Decidable (_ ∧ _))

/-- What a release build makes of a result. -/
def wrap (i : Int) : Int := Int.bmod i (2 ^ 64)

/-- What the `saturating` operations make of a result. -/
def saturate (i : Int) : Int := max (-2 ^ 63) (min i (2 ^ 63 - 1))

variable {i : Int} {n : Nat}

theorem wrap_of_inRange (h : InRange i) : wrap i = i := by
  obtain ⟨hlow, hhigh⟩ := h
  rw [wrap, Int.bmod_def]
  split <;> omega

/-- Within a period above the range, one period is taken away. -/
theorem wrap_of_above (habove : 2 ^ 63 ≤ i) (hhigh : i < 2 ^ 64) : wrap i = i - 2 ^ 64 := by
  rw [wrap, Int.bmod_def]
  split <;> omega

theorem saturate_of_inRange (h : InRange i) : saturate i = i := by
  obtain ⟨hlow, hhigh⟩ := h
  rw [saturate]
  omega

/-- A larger number becomes the largest. -/
theorem saturate_of_above (h : 2 ^ 63 ≤ i) : saturate i = 2 ^ 63 - 1 := by
  rw [saturate]
  omega

/-- `as i64` of a `u64` that is an `i64`. -/
theorem wrap_natCast (h : n < 2 ^ 63) : wrap n = n :=
  wrap_of_inRange ⟨by omega, by omega⟩

/-- `as i64` of any other `u64` is negative. -/
theorem wrap_natCast_of_le (hle : 2 ^ 63 ≤ n) (hlt : n < 2 ^ 64) : wrap n = n - 2 ^ 64 :=
  wrap_of_above (by omega) (by omega)

end I64
