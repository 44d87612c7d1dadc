import Mathlib.Algebra.BigOperators.Group.Finset.Piecewise
import Mathlib.Algebra.Order.BigOperators.Group.Finset

/-! # What many threads hold

    Every thread holds an amount that can be read off its state.  A budget
    covers an amount if it covers that amount together with what any finite
    set of threads holds.  A thread that moves may take from the amount what
    it then holds more, or add to the amount what it holds less, and the
    budget may grow meanwhile: `Covers.update`. -/

namespace Ledger

variable {ι σ : Type} {holds : σ → ℕ} {threads : ι → σ} {i : ι} {x : σ}
  {budget budget' amount amount' : ℕ}

/-- The budget covers the amount and what the threads hold. -/
def Covers (holds : σ → ℕ) (threads : ι → σ) (amount budget : ℕ) : Prop :=
  ∀ S : Finset ι, amount + ∑ j ∈ S, holds (threads j) ≤ budget

/-- What the threads of a set hold, before and after one of them moves. -/
theorem sum_update [DecidableEq ι] {S : Finset ι} (hi : i ∈ S) :
    ∑ j ∈ S, holds (Function.update threads i x j) + holds (threads i) =
      ∑ j ∈ S, holds (threads j) + holds x := by
  have hfun : (fun j => holds (Function.update threads i x j))
      = Function.update (fun j => holds (threads j)) i (holds x) := by
    ext j
    by_cases hj : j = i
    · subst hj
      rw [Function.update_self, Function.update_self]
    · rw [Function.update_of_ne hj, Function.update_of_ne hj]
  rw [hfun, Finset.sum_update_of_mem hi, Finset.sdiff_singleton_eq_erase,
    ← Finset.add_sum_erase S (fun j => holds (threads j)) hi]
  omega

/-- Threads that hold nothing. -/
theorem covers_of_zero (hzero : ∀ j, holds (threads j) = 0) (h : amount ≤ budget) :
    Covers holds threads amount budget := by
  intro S
  rw [Finset.sum_eq_zero fun j _ => hzero j]
  exact h

/-- **Ledger rule**: a thread moves, and the amount and what the thread holds
    grow together by no more than the budget. -/
theorem Covers.update [DecidableEq ι] (h : Covers holds threads amount budget)
    (hmove : amount' + holds x + budget ≤ amount + holds (threads i) + budget') :
    Covers holds (Function.update threads i x) amount' budget' := by
  intro S
  have hcover := h (insert i S)
  have hsum : ∑ j ∈ insert i S, holds (Function.update threads i x j) + holds (threads i) =
      ∑ j ∈ insert i S, holds (threads j) + holds x := sum_update (Finset.mem_insert_self i S)
  have hsub : ∑ j ∈ S, holds (Function.update threads i x j)
      ≤ ∑ j ∈ insert i S, holds (Function.update threads i x j) :=
    Finset.sum_le_sum_of_subset (Finset.subset_insert i S)
  omega

/-- The rule for a move that the budget does not notice. -/
theorem Covers.spend [DecidableEq ι] (h : Covers holds threads amount budget)
    (hmove : amount' + holds x ≤ amount + holds (threads i)) :
    Covers holds (Function.update threads i x) amount' budget :=
  h.update (Nat.add_le_add_right hmove budget)

/-- The amount alone. -/
theorem Covers.amount_le (h : Covers holds threads amount budget) : amount ≤ budget :=
  h ∅

end Ledger
