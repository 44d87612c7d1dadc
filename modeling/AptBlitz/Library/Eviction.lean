import Mathlib.Data.Finset.Max
import Mathlib.Order.UpperLower.Basic

/-! # Eviction in order

    A set from which least elements are taken, one after the other, until
    what is left may stay.  Among elements of equal rank anyone may be taken,
    so there are many evictions of one set; the results hold of each of them.

    What may stay is a family `stop` of sets.  Where it is closed under
    subsets, an element survives every eviction if and only if it may stay
    together with all that do not rank below it (`survives_iff`). -/

namespace Eviction

variable {ι α : Type} [DecidableEq ι] [LinearOrder α]

/-- Taking `is`, in this order, from `s` leaves `t`. -/
inductive Evicts (rank : ι → α) (stop : Finset ι → Prop) :
    Finset ι → List ι → Finset ι → Prop
  | done {s} (h : stop s) : Evicts rank stop s [] s
  | evict {s t i is} (hgo : ¬ stop s) (hi : i ∈ s) (hmin : ∀ j ∈ s, rank i ≤ rank j)
      (h : Evicts rank stop (s.erase i) is t) : Evicts rank stop s (i :: is) t

variable {rank : ι → α} {stop : Finset ι → Prop} {s t : Finset ι} {i j : ι} {is : List ι}

/-- What is left was there and has not been taken. -/
theorem Evicts.mem_iff (h : Evicts rank stop s is t) : i ∈ t ↔ i ∈ s ∧ i ∉ is := by
  induction h with
  | done => simp
  | evict _ _ _ _ ih =>
      rw [ih, Finset.mem_erase, List.mem_cons, not_or]
      tauto

/-- What is taken was there. -/
theorem Evicts.mem (h : Evicts rank stop s is t) (hi : i ∈ is) : i ∈ s := by
  induction h with
  | done => cases hi
  | evict _ hfirst _ _ ih =>
      rcases List.mem_cons.mp hi with rfl | hlater
      · exact hfirst
      · exact Finset.mem_of_mem_erase (ih hlater)

/-- Nothing is taken twice. -/
theorem Evicts.nodup (h : Evicts rank stop s is t) : is.Nodup := by
  induction h with
  | done => exact List.nodup_nil
  | evict _ _ _ hrest ih =>
      refine List.nodup_cons.mpr ⟨fun hi => ?_, ih⟩
      exact Finset.notMem_erase _ _ (hrest.mem hi)

theorem Evicts.may_stay (h : Evicts rank stop s is t) : stop t := by
  induction h with
  | done hstop => exact hstop
  | evict _ _ _ _ ih => exact ih

/-- **Order**: what was taken ranks no higher than what is left. -/
theorem Evicts.rank_le (h : Evicts rank stop s is t) (hi : i ∈ is) (hj : j ∈ t) :
    rank i ≤ rank j := by
  induction h with
  | done => cases hi
  | evict _ _ hmin hrest ih =>
      rcases List.mem_cons.mp hi with rfl | hlater
      · exact hmin j (Finset.mem_of_mem_erase (hrest.mem_iff.mp hj).1)
      · exact ih hlater hj

/-- **Minimality**: whenever something is taken, what is there may not stay. -/
theorem Evicts.not_stop (h : Evicts rank stop s is t) {before after : List ι}
    (his : is = before ++ i :: after) : ¬ stop (s.filter (· ∉ before)) := by
  induction h generalizing before with
  | done => exact absurd his.symm (List.append_ne_nil_of_right_ne_nil _ nofun)
  | @evict s t k ks hgo _ _ _ ih =>
      cases before with
      | nil =>
          rw [Finset.filter_true_of_mem fun _ _ => List.not_mem_nil]
          exact hgo
      | cons b before =>
          obtain ⟨rfl, hks⟩ := List.cons.inj his
          have hset : s.filter (· ∉ k :: before) = (s.erase k).filter (· ∉ before) := by
            ext x
            simp only [Finset.mem_filter, Finset.mem_erase, List.mem_cons, not_or]
            tauto
          rw [hset]
          exact ih hks

/-- As long as the empty set may stay, every eviction comes to an end. -/
theorem exists_evicts (h₀ : stop ∅) (s : Finset ι) : ∃ is t, Evicts rank stop s is t := by
  induction s using Finset.strongInduction with
  | H s ih =>
      by_cases hstop : stop s
      · exact ⟨[], s, .done hstop⟩
      · have hne : s.Nonempty := by
          rw [Finset.nonempty_iff_ne_empty]
          rintro rfl
          exact hstop h₀
        obtain ⟨m, hm, hmin⟩ := s.exists_min_image rank hne
        obtain ⟨is, t, hrest⟩ := ih _ (Finset.erase_ssubset hm)
        exact ⟨m :: is, t, .evict hstop hm hmin hrest⟩

/-! ## Who survives -/

/-- The elements that rank no lower than `i`. -/
def notBelow (rank : ι → α) (s : Finset ι) (i : ι) : Finset ι :=
  s.filter fun j => rank i ≤ rank j

/-- What may not stay with all that rank no lower can be taken. -/
theorem exists_evicts_mem (hlow : IsLowerSet stop) (h₀ : stop ∅) (hi : i ∈ s)
    (hno : ¬ stop (notBelow rank s i)) : ∃ is t, Evicts rank stop s is t ∧ i ∈ is := by
  induction s using Finset.strongInduction with
  | H s ih =>
      have hgo : ¬ stop s := fun hstop => hno (hlow (Finset.filter_subset ..) hstop)
      obtain ⟨m, hm, hmin⟩ := s.exists_min_image rank ⟨i, hi⟩
      rcases lt_or_ge (rank m) (rank i) with hlt | hge
      · -- something ranks below `i`, and goes first
        have hne : i ≠ m := by
          rintro rfl
          exact lt_irrefl _ hlt
        have hsame : notBelow rank (s.erase m) i = notBelow rank s i := by
          ext j
          simp only [notBelow, Finset.mem_filter, Finset.mem_erase]
          constructor
          · rintro ⟨⟨-, hj⟩, hle⟩
            exact ⟨hj, hle⟩
          · rintro ⟨hj, hle⟩
            refine ⟨⟨?_, hj⟩, hle⟩
            rintro rfl
            exact absurd hle (not_le.mpr hlt)
        obtain ⟨is, t, hrest, hmem⟩ := ih _ (Finset.erase_ssubset hm)
          (Finset.mem_erase.mpr ⟨hne, hi⟩) (hsame ▸ hno)
        exact ⟨m :: is, t, .evict hgo hm hmin hrest, List.mem_cons_of_mem _ hmem⟩
      · obtain ⟨is, t, hrest⟩ : ∃ is t, Evicts rank stop (s.erase i) is t := exists_evicts h₀ _
        exact ⟨i :: is, t, .evict hgo hi (fun j hj => hge.trans (hmin j hj)) hrest,
          List.mem_cons_self⟩

/-- What is taken may not stay with all that rank no lower. -/
theorem Evicts.not_stop_notBelow (hlow : IsLowerSet stop) (h : Evicts rank stop s is t)
    (hi : i ∈ is) : ¬ stop (notBelow rank s i) := by
  induction h with
  | done => cases hi
  | @evict s t k ks hgo hk hmin _ ih =>
      rcases List.mem_cons.mp hi with rfl | hlater
      · rw [notBelow, Finset.filter_true_of_mem hmin]
        exact hgo
      · intro hstop
        refine ih hlater (hlow ?_ hstop)
        exact Finset.filter_subset_filter _ (Finset.erase_subset ..)

/-- **Survival**: `i` survives every eviction of `s` if and only if it may
    stay with all that rank no lower. -/
theorem survives_iff (hlow : IsLowerSet stop) (h₀ : stop ∅) (hi : i ∈ s) :
    (∀ is t, Evicts rank stop s is t → i ∈ t) ↔ stop (notBelow rank s i) := by
  constructor
  · intro hall
    by_contra hno
    obtain ⟨is, t, h, hmem⟩ := exists_evicts_mem hlow h₀ hi hno
    exact (h.mem_iff.mp (hall is t h)).2 hmem
  · intro hstop is t h
    refine h.mem_iff.mpr ⟨hi, fun hmem => ?_⟩
    exact h.not_stop_notBelow hlow hmem hstop

end Eviction
