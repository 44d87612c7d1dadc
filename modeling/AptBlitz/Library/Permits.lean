import AptBlitz.Library.Ledger
import Mathlib.Algebra.Ring.Nat

/-! # Permits of a semaphore

    A semaphore hands out permits to the threads of several parts, where a
    thread holds one permit or none.  A thread that comes to hold one takes
    it from the semaphore, and one that stops holding it gives it back
    (`exchange`), so the permits that are available and those that are held
    are always as many as there were (`inUse_set`, `held_step`). -/

namespace Permits

variable {σ τ : Type} {holds : σ → Bool} {threads threads' : Nat → σ} {w n : Nat}
  {held : τ → Nat} {parts : List τ} {x y : τ} {i available available' : Nat}
  {before after : Bool}

/-- What the semaphore has left when a thread that held a permit or did not
    now holds one or does not; `none` when it has to wait. -/
def exchange (available : Nat) (before after : Bool) : Option Nat :=
  match before, after with
  | false, true => if available = 0 then none else some (available - 1)
  | true, false => some (available + 1)
  | _, _ => some available

/-- What is given and what is taken. -/
theorem exchange_some (h : exchange available before after = some available') :
    available' + after.toNat = available + before.toNat := by
  cases before with
  | false =>
      cases after with
      | false => exact Option.some.inj h ▸ rfl
      | true =>
          rw [exchange] at h
          split at h
          next => cases h
          next hpos =>
            cases h
            show available - 1 + 1 = available + 0
            omega
  | true =>
      cases after with
      | false => exact Option.some.inj h ▸ rfl
      | true => exact Option.some.inj h ▸ rfl

/-- The permits that the first `n` threads hold. -/
def heldBy (holds : σ → Bool) (threads : Nat → σ) (n : Nat) : Nat :=
  ∑ j ∈ Finset.range n, (holds (threads j)).toNat

/-- One thread makes a step. -/
theorem heldBy_step (hw : w < n) (hothers : ∀ v, v ≠ w → threads' v = threads v) :
    heldBy holds threads' n + (holds (threads w)).toNat
      = heldBy holds threads n + (holds (threads' w)).toNat := by
  have hupdate : threads' = Function.update threads w (threads' w) := by
    funext v
    by_cases hv : v = w
    · subst hv
      rw [Function.update_self]
    · rw [Function.update_of_ne hv]
      exact hothers v hv
  have hsum := @Ledger.sum_update _ _ (fun x => (holds x).toNat) threads w (threads' w) _ _
    (Finset.mem_range.mpr hw)
  rw [← hupdate] at hsum
  exact hsum

/-- A thread more, which holds nothing yet. -/
theorem heldBy_succ (hothers : ∀ v, v < n → threads' v = threads v)
    (hnew : holds (threads' n) = false) :
    heldBy holds threads' (n + 1) = heldBy holds threads n := by
  have hsame : heldBy holds threads' n = heldBy holds threads n := by
    refine Finset.sum_congr rfl fun v hv => ?_
    rw [hothers v (Finset.mem_range.mp hv)]
  rw [← hsame, heldBy]
  rw [Finset.sum_range_succ, hnew]
  rfl

theorem heldBy_eq_zero (h : ∀ v, v < n → holds (threads v) = false) :
    heldBy holds threads n = 0 :=
  Finset.sum_eq_zero fun v hv => by rw [h v (Finset.mem_range.mp hv)]; rfl

/-- The permits that the parts hold. -/
def inUse (held : τ → Nat) (parts : List τ) : Nat := (parts.map held).sum

/-- One part makes a step. -/
theorem inUse_set (h : parts[i]? = some x) :
    inUse held (parts.set i y) + held x = inUse held parts + held y := by
  induction parts generalizing i with
  | nil => cases h
  | cons z parts ih =>
      cases i with
      | zero =>
          cases h
          show held y + inUse held parts + held x = held x + inUse held parts + held y
          omega
      | succ i =>
          have hrest := ih h
          show held z + inUse held (parts.set i y) + held x = held z + inUse held parts + held y
          omega

theorem inUse_snoc : inUse held (parts ++ [x]) = inUse held parts + held x := by
  rw [inUse, List.map_append, List.sum_append]
  exact congrArg (_ + ·) (Nat.add_zero _)

theorem inUse_eq_zero (h : ∀ x ∈ parts, held x = 0) : inUse held parts = 0 :=
  List.sum_eq_zero fun k hk => by
    obtain ⟨x, hx, rfl⟩ := List.mem_map.mp hk
    exact h x hx

end Permits
