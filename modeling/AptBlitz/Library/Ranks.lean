import Mathlib.Data.List.Sort

/-! # Elements by their rank

    The element at a place of the sorted list (what a selection algorithm
    finds), by how many elements are no greater: `getElem_mergeSort_le_iff`.
    Nothing is below the element at a place if and only if more elements than
    that share the least value: `getElem_mergeSort_least_iff`. -/

namespace Ranks

variable {α : Type} [LinearOrder α] {l : List α} {x : α} {k : Nat}

/-- The element of rank `k` is at most `x` if more than `k` elements are. -/
theorem getElem_le_iff (hs : l.Pairwise (· ≤ ·)) (hk : k < l.length) :
    l[k] ≤ x ↔ k < l.countP (· ≤ x) := by
  induction l generalizing k with
  | nil => exact absurd hk (Nat.not_lt_zero k)
  | cons a l ih =>
      obtain ⟨ha, hl⟩ := List.pairwise_cons.mp hs
      by_cases hax : a ≤ x
      · rw [List.countP_cons_of_pos (by simpa using hax)]
        cases k with
        | zero => exact iff_of_true hax (Nat.succ_pos _)
        | succ k =>
            rw [List.getElem_cons_succ, ih hl (Nat.lt_of_succ_lt_succ hk)]
            exact Nat.succ_lt_succ_iff.symm
      · -- the first is too great, and so are all
        have hnone : ∀ b ∈ a :: l, ¬ b ≤ x := by
          intro b hb hbx
          rcases List.mem_cons.mp hb with rfl | hb
          · exact hax hbx
          · exact hax ((ha b hb).trans hbx)
        have hzero : (a :: l).countP (· ≤ x) = 0 :=
          List.countP_eq_zero.mpr fun b hb => by simpa using hnone b hb
        rw [hzero]
        exact iff_of_false (hnone _ (List.getElem_mem hk)) (Nat.not_lt_zero k)

/-- The same, for a list that has to be sorted. -/
theorem getElem_mergeSort_le_iff (hk : k < (l.mergeSort (· ≤ ·)).length) :
    (l.mergeSort (· ≤ ·))[k] ≤ x ↔ k < l.countP (· ≤ x) := by
  rw [getElem_le_iff (List.pairwise_mergeSort' _ l) hk, (List.mergeSort_perm l _).countP_eq]

/-- The element of rank `k` is the least if more than `k` elements are. -/
theorem getElem_mergeSort_least_iff (hk : k < (l.mergeSort (· ≤ ·)).length) :
    (∀ y ∈ l, (l.mergeSort (· ≤ ·))[k] ≤ y) ↔
      ∃ t, (∀ y ∈ l, t ≤ y) ∧ k < l.countP (· = t) := by
  have hcount : ∀ t, (∀ y ∈ l, t ≤ y) → l.countP (· = t) = l.countP (· ≤ t) := by
    intro t hleast
    refine List.countP_congr fun y hy => ?_
    rw [decide_eq_true_iff, decide_eq_true_iff]
    constructor
    · intro heq
      exact heq.le
    · intro hle
      exact le_antisymm hle (hleast y hy)
  constructor
  · intro hleast
    refine ⟨_, hleast, ?_⟩
    rw [hcount _ hleast]
    exact (getElem_mergeSort_le_iff hk).mp le_rfl
  · rintro ⟨t, hleast, hlt⟩ y hy
    rw [hcount t hleast] at hlt
    exact ((getElem_mergeSort_le_iff hk).mpr hlt).trans (hleast y hy)

end Ranks
