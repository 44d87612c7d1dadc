import Mathlib.Data.Finset.Card
import Mathlib.Data.Finset.Range
import Mathlib.Logic.Function.Basic

/-! # Tasks that are handed out once

    Tasks are numbered in the order in which they are handed out.  A worker
    holds the task it was given until it finishes it, which is counted, or
    drops it; nobody is given a task a second time.

    So the count reaches the number of tasks if and only if none is dropped:
    as long as none is, each task is held or counted (`Kept`), and a task
    that was dropped stays an orphan, neither held nor counted, for ever
    (`Orphaned`). -/

namespace Tasks

variable {W : Type}

/-- The number of tasks handed out, the number counted as finished, and what
    each worker holds. -/
structure Tally (W : Type) where
  issued : Nat
  finished : Nat
  held : W → Option Nat

namespace Tally

variable [DecidableEq W] {t : Tally W} {w : W} {id : Nat}

/-- A task is issued, and `w` holds it. -/
def issue (t : Tally W) (w : W) : Tally W :=
  { t with issued := t.issued + 1, held := Function.update t.held w (some t.issued) }

/-- `w` finishes its task. -/
def finish (t : Tally W) (w : W) : Tally W :=
  { t with finished := t.finished + 1, held := Function.update t.held w none }

/-- `w` lets go of its task. -/
def drop (t : Tally W) (w : W) : Tally W :=
  { t with held := Function.update t.held w none }

/-- What a worker holds after another step, it was given by it or held
    before. -/
theorem held_update {o : Option Nat} {v : W} (h : Function.update t.held w o v = some id) :
    v = w ∧ o = some id ∨ v ≠ w ∧ t.held v = some id := by
  by_cases hv : v = w
  · subst hv
    rw [Function.update_self] at h
    exact Or.inl ⟨rfl, h⟩
  · rw [Function.update_of_ne hv] at h
    exact Or.inr ⟨hv, h⟩

/-- A task has at most one holder, and those that are counted have none. -/
structure Sound (t : Tally W) : Prop where
  exclusive : ∀ v w id, t.held v = some id → t.held w = some id → v = w
  counted : ∃ C : Finset Nat, C.card = t.finished ∧
    ∀ id ∈ C, id < t.issued ∧ ∀ w, t.held w ≠ some id

/-! ## Nothing is dropped -/

/-- Each task is counted, or held. -/
def Kept (t : Tally W) : Prop :=
  ∃ C : Finset Nat, C.card ≤ t.finished ∧
    ∀ id, id < t.issued → id ∈ C ∨ ∃ w, t.held w = some id

/-- A task more, held. -/
theorem Kept.issue (h : Kept t) (hw : t.held w = none) : Kept (t.issue w) := by
  obtain ⟨C, hcard, hC⟩ := h
  refine ⟨C, hcard, fun id hid => ?_⟩
  have hid : id < t.issued + 1 := hid
  rcases Nat.lt_succ_iff_lt_or_eq.mp hid with hlt | rfl
  · refine (hC id hlt).imp_right ?_
    rintro ⟨v, hv⟩
    have hne : v ≠ w := by
      rintro rfl
      rw [hw] at hv
      cases hv
    exact ⟨v, (Function.update_of_ne hne ..).trans hv⟩
  · exact Or.inr ⟨w, Function.update_self ..⟩

/-- A task less, finished. -/
theorem Kept.finish (h : Kept t) (hw : t.held w = some id) : Kept (t.finish w) := by
  obtain ⟨C, hcard, hC⟩ := h
  refine ⟨insert id C, ?_, fun i hi => ?_⟩
  · exact (Finset.card_insert_le id C).trans (Nat.add_le_add_right hcard 1)
  · by_cases heq : i = id
    · exact Or.inl (heq ▸ Finset.mem_insert_self ..)
    · refine (hC i hi).imp (Finset.mem_insert_of_mem ·) ?_
      rintro ⟨v, hv⟩
      have hne : v ≠ w := by
        rintro rfl
        exact heq (Option.some.inj (hv.symm.trans hw))
      exact ⟨v, (Function.update_of_ne hne ..).trans hv⟩

omit [DecidableEq W] in
/-- When nobody holds a task any more, all are counted. -/
theorem Kept.all_finished (h : Kept t) (hnone : ∀ w, t.held w = none) :
    t.issued ≤ t.finished := by
  obtain ⟨C, hcard, hC⟩ := h
  have hsub : Finset.range t.issued ⊆ C := by
    intro id hid
    refine (hC id (Finset.mem_range.mp hid)).resolve_right ?_
    rintro ⟨w, hw⟩
    rw [hnone w] at hw
    cases hw
  have hle := Finset.card_le_card hsub
  rw [Finset.card_range] at hle
  exact hle.trans hcard

/-! ## Something is dropped -/

/-- A task is neither held nor counted. -/
def Orphaned (t : Tally W) : Prop :=
  ∃ orphan C, orphan < t.issued ∧ (∀ w, t.held w ≠ some orphan) ∧ orphan ∉ C ∧
    Finset.card C = t.finished ∧ ∀ id ∈ C, id < t.issued ∧ ∀ w, t.held w ≠ some id

/-- A worker that drops its task orphans it. -/
theorem orphaned_of_drop (h : Sound t) (hw : t.held w = some id) (hlt : id < t.issued) :
    Orphaned (t.drop w) := by
  obtain ⟨C, hcard, hC⟩ := h.counted
  have hother : ∀ v i, (t.drop w).held v = some i → v ≠ w ∧ t.held v = some i := by
    intro v i hv
    exact (held_update hv).resolve_left (fun hself => nomatch hself.2)
  refine ⟨id, C, hlt, fun v hv => ?_, fun hmem => (hC id hmem).2 w hw, hcard,
    fun i hi => ⟨(hC i hi).1, fun v hv => (hC i hi).2 v (hother v i hv).2⟩⟩
  obtain ⟨hne, hv⟩ := hother v id hv
  exact hne (h.exclusive v w id hv hw)

/-- A task that nobody holds comes to nobody. -/
theorem Orphaned.drop (h : Orphaned t) : Orphaned (t.drop w) := by
  obtain ⟨orphan, C, hlt, hfree, hnot, hcard, hC⟩ := h
  have hother : ∀ v i, (t.drop w).held v = some i → t.held v = some i := by
    intro v i hv
    rcases held_update hv with ⟨-, hself⟩ | ⟨-, hold⟩
    · cases hself
    · exact hold
  exact ⟨orphan, C, hlt, fun v hv => hfree v (hother v orphan hv), hnot, hcard,
    fun i hi => ⟨(hC i hi).1, fun v hv => (hC i hi).2 v (hother v i hv)⟩⟩

/-- A new task is another. -/
theorem Orphaned.issue (h : Orphaned t) : Orphaned (t.issue w) := by
  obtain ⟨orphan, C, hlt, hfree, hnot, hcard, hC⟩ := h
  -- the new task has a number of its own
  have hnew : ∀ v i, i < t.issued → (t.issue w).held v = some i → t.held v = some i := by
    intro v i hi hv
    rcases held_update hv with ⟨-, hself⟩ | ⟨-, hold⟩
    · cases hself
      exact absurd hi (Nat.lt_irrefl _)
    · exact hold
  refine ⟨orphan, C, Nat.lt_succ_of_lt hlt, fun v hv => hfree v (hnew v orphan hlt hv), hnot,
    hcard, fun i hi => ⟨Nat.lt_succ_of_lt (hC i hi).1, fun v hv => ?_⟩⟩
  exact (hC i hi).2 v (hnew v i (hC i hi).1 hv)

/-- A task that is finished is another. -/
theorem Orphaned.finish (h : Orphaned t) (hsound : Sound t) (hw : t.held w = some id)
    (hlt : id < t.issued) : Orphaned (t.finish w) := by
  obtain ⟨orphan, C, hltO, hfree, hnot, hcard, hC⟩ := h
  have hother : ∀ v i, (t.finish w).held v = some i → v ≠ w ∧ t.held v = some i := by
    intro v i hv
    exact (held_update hv).resolve_left (fun hself => nomatch hself.2)
  have hnew : id ∉ C := fun hmem => (hC id hmem).2 w hw
  refine ⟨orphan, insert id C, hltO, fun v hv => hfree v (hother v orphan hv).2, ?_, ?_, ?_⟩
  · intro hmem
    rcases Finset.mem_insert.mp hmem with rfl | hin
    · exact hfree w hw
    · exact hnot hin
  · rw [Finset.card_insert_of_notMem hnew, hcard]
    rfl
  · intro i hi
    rcases Finset.mem_insert.mp hi with rfl | hin
    · refine ⟨hlt, fun v hv => ?_⟩
      obtain ⟨hne, hv⟩ := hother v i hv
      exact hne (hsound.exclusive v w i hv hw)
    · exact ⟨(hC i hin).1, fun v hv => (hC i hin).2 v (hother v i hv).2⟩

omit [DecidableEq W] in
/-- The count never gets there. -/
theorem Orphaned.finished_lt (h : Orphaned t) : t.finished < t.issued := by
  obtain ⟨orphan, C, hlt, -, hnot, hcard, hC⟩ := h
  have hsub : C ⊆ (Finset.range t.issued).erase orphan := by
    intro i hi
    refine Finset.mem_erase.mpr ⟨?_, Finset.mem_range.mpr (hC i hi).1⟩
    rintro rfl
    exact hnot hi
  have hle := Finset.card_le_card hsub
  rw [hcard, Finset.card_erase_of_mem (Finset.mem_range.mpr hlt), Finset.card_range] at hle
  omega

end Tally

end Tasks
