import AptBlitz.Coalescer
import AptBlitz.Library.Numerals

/-! # What the coalescer keeps

    The coalescer has two maps with a lock each, and `complete` and `fail`
    take one lock after the other.  So a run is a list of what is done under
    one lock, in the order of the locks, whichever threads do it.

    The map of requests in flight keeps to its limit in every run.  The other
    map has no limit: it keeps an entry for every URL that has failed and not
    been completed since (`mem_etagFailed_iff`), so it is as small as these
    are few: `maps_bounded_iff`. -/

namespace BlitzCoalescerMaps

open RustText BlitzCoalescer

variable {β : Type}

/-- What is done under one lock. -/
inductive Locked (β : Type) where
  | register (url : Text) (channel : Nat)
  | attachBuffer (url : Text) (buffer : β)
  /-- `inflight.remove`, in `complete` and in `fail` -/
  | remove (url : Text)
  /-- `etag_failed.remove`, in `complete` -/
  | forget (url : Text)
  /-- `etag_failed.insert`, in `fail` -/
  | note (url : Text) (etagChanged : Bool)

/-- The coalescer after it. -/
def locked (c : Coalescer β) : Locked β → Coalescer β
  | .register url channel => (c.register url channel).1
  | .attachBuffer url buffer => (c.attachBuffer url buffer).1
  | .remove url => { c with inflight := c.inflight.erase url }
  | .forget url => { c with etagFailed := c.etagFailed.erase url }
  | .note url etagChanged => { c with etagFailed := c.etagFailed.insert url etagChanged }

/-- The locks that an operation takes, one after the other. -/
def locks : Op β → List (Locked β)
  | .register url channel => [.register url channel]
  | .attachBuffer url buffer => [.attachBuffer url buffer]
  | .complete url => [.remove url, .forget url]
  | .fail url etagChanged => [.remove url, .note url etagChanged]

/-- A new coalescer after a run. -/
def ran (steps : List (Locked β)) : Coalescer β := steps.foldl locked .new

/-- How many entries there are. -/
def retained (c : Coalescer β) : Nat := c.inflight.keys.card + c.etagFailed.keys.card

/-- The URL has failed, and has not been completed since. -/
def Outstanding (steps : List (Locked β)) (url : Text) : Prop :=
  ∃ before etagChanged after, steps = before ++ .note url etagChanged :: after ∧
    ∀ step ∈ after, step ≠ .forget url

/-- At any time the maps have no more than so many entries. -/
def Bounded (bound : Nat) (steps : List (Locked β)) : Prop :=
  ∀ earlier, earlier <+: steps → (ran earlier).inflight.keys.card ≤ maxInflight ∧
    (ran earlier).etagFailed.keys.card ≤ bound

/-- At any time no more than so many URLs are outstanding. -/
def FewOutstanding (bound : Nat) (steps : List (Locked β)) : Prop :=
  ∀ earlier, earlier <+: steps → ∀ urls : Finset Text, (∀ u ∈ urls, Outstanding earlier u) →
    urls.card ≤ bound

variable {c : Coalescer β} {steps : List (Locked β)} {step : Locked β} {url : Text} {bound : Nat}

/-! ## Operations and locks -/

/-- An operation that no other comes between. -/
theorem foldl_locks (c : Coalescer β) (op : Op β) : (locks op).foldl locked c = c.after op := by
  cases op <;> rfl

/-- The locks of the operations, one after the other, do what the operations
    do. -/
theorem foldl_flatMap_locks (c : Coalescer β) (ops : List (Op β)) :
    (ops.flatMap locks).foldl locked c = ops.foldl Coalescer.after c := by
  induction ops generalizing c with
  | nil => rfl
  | cons op ops ih =>
      rw [List.flatMap_cons, List.foldl_append, foldl_locks, List.foldl_cons, ih]

theorem ran_concat (steps : List (Locked β)) (step : Locked β) :
    ran (steps ++ [step]) = locked (ran steps) step := List.foldl_concat ..

/-! ## The requests in flight -/

/-- An insert adds one key. -/
theorem keys_insert_subset {e : Inflight β} (m : Finmap fun _ : Text => Inflight β) :
    (m.insert url e).keys ⊆ insert url m.keys := by
  intro u hu
  rw [Finmap.mem_keys, Finmap.mem_insert] at hu
  rw [Finset.mem_insert, Finmap.mem_keys]
  exact hu

/-- No step brings the map over its limit. -/
theorem card_inflight_locked (h : c.inflight.keys.card ≤ maxInflight) (step : Locked β) :
    (locked c step).inflight.keys.card ≤ maxInflight := by
  have herase : ∀ url, (c.inflight.erase url).keys.card ≤ maxInflight := by
    intro url
    rw [Finmap.keys_erase]
    exact (Finset.card_erase_le).trans h
  have hstays : ∀ {url e'} {e : Inflight β}, c.inflight.lookup url = some e' →
      (c.inflight.insert url e).keys.card ≤ maxInflight := by
    intro url e' e hmem
    have hkey : url ∈ c.inflight.keys := Finmap.mem_keys.mpr (Finmap.mem_of_lookup_eq_some hmem)
    refine (Finset.card_le_card (keys_insert_subset _)).trans ?_
    rw [Finset.insert_eq_of_mem hkey]
    exact h
  cases step with
  | register url channel =>
      rw [locked, Coalescer.register]
      split
      next => exact h
      next hroom =>
        split
        next => exact h
        next senders hpending => exact hstays hpending
        next =>
          -- a new entry, and there is room for it
          refine (Finset.card_le_card (keys_insert_subset _)).trans ?_
          exact (Finset.card_insert_le _ _).trans (not_le.mp hroom)
  | attachBuffer url buffer =>
      rw [locked, Coalescer.attachBuffer]
      split
      next senders hpending =>
        have hkey : url ∈ c.inflight.keys :=
          Finmap.mem_keys.mpr (Finmap.mem_of_lookup_eq_some hpending)
        refine (Finset.card_le_card (keys_insert_subset _)).trans ?_
        rw [Finmap.keys_erase, Finset.insert_erase hkey]
        exact h
      next => exact herase url
  | remove url => exact herase url
  | forget url => exact h
  | note url etagChanged => exact h

/-- **Bound**: no more entries are in flight than the limit. -/
theorem card_inflight_ran (steps : List (Locked β)) :
    (ran steps).inflight.keys.card ≤ maxInflight := by
  induction steps using List.reverseRecOn with
  | nil => exact Nat.zero_le _
  | append_singleton steps step ih =>
      rw [ran_concat]
      exact card_inflight_locked ih step

/-! ## The URLs that failed -/

/-- `register` leaves the failures alone. -/
theorem etagFailed_register (url : Text) (channel : Nat) :
    (c.register url channel).1.etagFailed = c.etagFailed := by
  rw [Coalescer.register]
  split
  · rfl
  · split <;> rfl

/-- `attach_buffer` leaves the failures alone. -/
theorem etagFailed_attachBuffer (url : Text) (buffer : β) :
    (c.attachBuffer url buffer).1.etagFailed = c.etagFailed := by
  rw [Coalescer.attachBuffer]
  split <;> rfl

/-- A failure is noted, or was there and is not forgotten. -/
theorem mem_etagFailed_locked :
    url ∈ (locked c step).etagFailed ↔
      (∃ etagChanged, step = .note url etagChanged) ∨ url ∈ c.etagFailed ∧ step ≠ .forget url := by
  cases step with
  | register u channel =>
      rw [locked, etagFailed_register]
      simp
  | attachBuffer u buffer =>
      rw [locked, etagFailed_attachBuffer]
      simp
  | remove u => simp [locked]
  | forget u =>
      rw [locked]
      simp only [Finmap.mem_erase, reduceCtorEq, exists_false, false_or, ne_eq, Locked.forget.injEq]
      rw [and_comm, eq_comm]
  | note u etagChanged =>
      rw [locked]
      simp only [Finmap.mem_insert, Locked.note.injEq, exists_and_left, exists_eq', and_true, ne_eq,
        reduceCtorEq, not_false_eq_true]
      rw [eq_comm]

/-- One lock more. -/
theorem outstanding_concat :
    Outstanding (steps ++ [step]) url ↔
      (∃ etagChanged, step = .note url etagChanged) ∨ Outstanding steps url ∧ step ≠ .forget url := by
  constructor
  · rintro ⟨before, etagChanged, after, heq, hafter⟩
    rcases List.eq_nil_or_concat after with rfl | ⟨after, last, rfl⟩
    · obtain ⟨-, hlast⟩ := List.append_inj' heq rfl
      exact Or.inl ⟨etagChanged, (List.cons.inj hlast).1⟩
    · rw [List.concat_eq_append] at heq hafter
      rw [← List.cons_append, ← List.append_assoc] at heq
      obtain ⟨hsteps, hlast⟩ := List.append_inj' heq rfl
      obtain rfl : step = last := (List.cons.inj hlast).1
      refine Or.inr ⟨⟨before, etagChanged, after, hsteps, ?_⟩, ?_⟩
      · exact fun s hs => hafter s (List.mem_append_left _ hs)
      · exact hafter step (List.mem_append_right _ (List.mem_singleton_self _))
  · rintro (⟨etagChanged, rfl⟩ | ⟨⟨before, etagChanged, after, rfl, hafter⟩, hstep⟩)
    · exact ⟨steps, etagChanged, [], rfl, nofun⟩
    · refine ⟨before, etagChanged, after ++ [step], by rw [List.append_assoc]; rfl, ?_⟩
      intro s hs
      rcases List.mem_append.mp hs with hs | hs
      · exact hafter s hs
      · rw [List.mem_singleton.mp hs]
        exact hstep

/-- **What is kept**: an entry for every URL that has failed and has not been
    completed since. -/
theorem mem_etagFailed_iff : url ∈ (ran steps).etagFailed ↔ Outstanding steps url := by
  induction steps using List.reverseRecOn with
  | nil =>
      refine iff_of_false Finmap.notMem_empty ?_
      rintro ⟨before, etagChanged, after, heq, -⟩
      exact absurd heq.symm (List.append_ne_nil_of_right_ne_nil _ (List.cons_ne_nil _ _))
  | append_singleton steps step ih => rw [ran_concat, mem_etagFailed_locked, outstanding_concat, ih]

/-- **The bound**: in every run the requests in flight keep to their limit,
    and the URLs that failed keep to a bound if and only if no more than that
    are outstanding at any time; the two together are what is retained. -/
theorem maps_bounded_iff (bound : Nat) (steps : List (Locked β)) :
    (Bounded bound steps ↔ FewOutstanding bound steps) ∧
      (FewOutstanding bound steps →
        ∀ earlier, earlier <+: steps → retained (ran earlier) ≤ maxInflight + bound) := by
  have hiff : Bounded bound steps ↔ FewOutstanding bound steps := by
    constructor
    · intro hbounded earlier hearlier urls hurls
      refine (Finset.card_le_card fun u hu => ?_).trans (hbounded earlier hearlier).2
      rw [Finmap.mem_keys, mem_etagFailed_iff]
      exact hurls u hu
    · intro hfew earlier hearlier
      refine ⟨card_inflight_ran earlier, hfew earlier hearlier _ fun u hu => ?_⟩
      rw [Finmap.mem_keys, mem_etagFailed_iff] at hu
      exact hu
  refine ⟨hiff, fun hfew earlier hearlier => ?_⟩
  obtain ⟨hinflight, hfailed⟩ := hiff.mpr hfew earlier hearlier
  exact Nat.add_le_add hinflight hfailed

/-- So many different URLs that fail. -/
def failures (n : Nat) : List (Op Unit) := (List.range n).map fun i => .fail (natText i) false

/-- A failure that nothing forgets is outstanding. -/
theorem outstanding_of_mem {etagChanged : Bool} (h : .note url etagChanged ∈ steps)
    (hnot : .forget url ∉ steps) : Outstanding steps url := by
  obtain ⟨before, after, rfl⟩ := List.append_of_mem h
  refine ⟨before, etagChanged, after, rfl, ?_⟩
  rintro step hstep rfl
  exact hnot (List.mem_append_right _ (List.mem_cons_of_mem _ hstep))

/-- The failures of the example are all outstanding. -/
theorem outstanding_failures {n i : Nat} (hi : i < n) :
    Outstanding ((failures n).flatMap locks) (natText i) := by
  refine @outstanding_of_mem Unit _ _ false ?_ ?_
  · rw [List.mem_flatMap]
    exact ⟨.fail (natText i) false, List.mem_map.mpr ⟨i, List.mem_range.mpr hi, rfl⟩, by simp [locks]⟩
  · intro hmem
    obtain ⟨op, hop, hmem⟩ := List.mem_flatMap.mp hmem
    obtain ⟨j, -, rfl⟩ := List.mem_map.mp hop
    simp [locks] at hmem

/-- **No bound**: as many URLs as one likes can fail, and all are kept. -/
theorem not_retained_le :
    ¬ ∃ bound, ∀ ops : List (Op Unit), retained (ops.foldl Coalescer.after .new) ≤ bound := by
  rintro ⟨bound, hbound⟩
  have hle : retained (ran ((failures (bound + 1)).flatMap locks)) ≤ bound := by
    rw [ran, foldl_flatMap_locks]
    exact hbound _
  have hinjective : Function.Injective natText :=
    Function.LeftInverse.injective numeralValue_natText
  have hall : (Finset.range (bound + 1)).image natText
      ⊆ (ran ((failures (bound + 1)).flatMap locks)).etagFailed.keys := by
    intro u hu
    obtain ⟨i, hi, rfl⟩ := Finset.mem_image.mp hu
    rw [Finmap.mem_keys, mem_etagFailed_iff]
    exact outstanding_failures (Finset.mem_range.mp hi)
  have hcard := Finset.card_le_card hall
  rw [Finset.card_image_of_injective _ hinjective, Finset.card_range] at hcard
  exact absurd ((hcard.trans (Nat.le_add_left ..)).trans hle) (Nat.not_succ_le_self bound)

end BlitzCoalescerMaps
