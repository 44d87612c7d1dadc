import AptBlitz.Claims

/-! # What the segments vector tells its readers

    `make_buffer_stream` sends segments by increasing index, so it needs the
    vector in file order; streams and downloads end on `all_completed()`, so
    they need a true answer to mean that the file is there.

    Both fail in the same window: between the `compare_exchange` of a
    `claim_range` call and its push, the call has taken its range and the
    vector does not show it.  Two calls may cross there, and
    `all_completed()` may look while one is there.  The results below say
    exactly what has to stay out of that window. -/

namespace BlitzCompletion

open BlitzBuffer SegmentsBuffer BlitzClaims Runs Tiling

variable {s s' : Shared} {w : Nat} {op : Op} {acts : List (Nat × Op)}
  {totalSize : Nat} {file : Bytes}

/-! ## File order -/

/-- The segments vector lists the ranges in file order. -/
def FileOrder (b : SegmentsBuffer) : Prop :=
  (∀ seg, b.segments[0]? = some seg → seg.start = 0) ∧
    ∀ i seg next, b.segments[i]? = some seg → b.segments[i + 1]? = some next →
      seg.end = next.start

/-- File order is the chain of the ranges. -/
theorem fileOrder_iff {b : SegmentsBuffer} :
    FileOrder b ↔ ∃ e, Chain 0 b.ranges e := by
  rw [← adjacent_iff_chain]
  constructor
  · rintro ⟨h0, hs⟩
    refine ⟨?_, ?_⟩
    · intro r hr
      rw [getElem?_ranges] at hr
      obtain ⟨seg, hseg, heq⟩ := Option.map_eq_some_iff.mp hr
      exact heq ▸ h0 seg hseg
    · intro i r q hr hq
      rw [getElem?_ranges] at hr hq
      obtain ⟨seg, hseg, hr⟩ := Option.map_eq_some_iff.mp hr
      obtain ⟨next, hnext, hq⟩ := Option.map_eq_some_iff.mp hq
      rw [← hr, ← hq]
      exact hs i seg next hseg hnext
  · rintro ⟨h0, hs⟩
    refine ⟨?_, ?_⟩
    · intro seg hseg
      exact h0 seg.range (by rw [getElem?_ranges, hseg]; rfl)
    · intro i seg next hseg hnext
      exact hs i seg.range next.range (by rw [getElem?_ranges, hseg]; rfl)
        (by rw [getElem?_ranges, hnext]; rfl)

/-- A push is made by the call that took the lowest range of those still
    between their two steps: pushes come in the order of the
    `compare_exchange`s. -/
def PushesLowest (s : Shared) (act : Nat × Op) : Prop :=
  act.2 = .push → ∀ a z, s.calls act.1 = .claimed a z →
    ∀ v a' z', s.calls v = .claimed a' z' → a ≤ a'

/-- The pushed segments are the listed owners. -/
theorem mem_ranges_iff (r : Nat × Nat) :
    r ∈ s.buf.ranges ↔ ∃ o : Nat ⊕ Nat, o.isLeft = true ∧ owners s o = some r := by
  rw [List.mem_iff_getElem?]
  constructor
  · rintro ⟨i, hi⟩
    exact ⟨.inl i, rfl, hi⟩
  · rintro ⟨o, ho, hr⟩
    cases o with
    | inl i => exact ⟨i, hr⟩
    | inr v => exact nomatch ho

/-- A call that has taken a range and not pushed it. -/
theorem claimed_of_owner {v : Nat} {r : Nat × Nat} (h : owners s (.inr v) = some r) :
    s.calls v = .claimed r.1 r.2 := by
  have hv : (s.calls v).claim = some r := h
  cases hc : s.calls v with
  | idle => rw [hc] at hv; exact nomatch hv
  | claimed a z => rw [hc] at hv; cases hv; rfl
  | holds id a z => rw [hc] at hv; exact nomatch hv
  | marking id => rw [hc] at hv; exact nomatch hv

/-- A claimed range has its thread as owner. -/
theorem owner_of_claimed {v a z : Nat} (h : s.calls v = .claimed a z) :
    owners s (.inr v) = some (a, z) := by
  show (s.calls v).claim = some (a, z)
  rw [h]
  rfl

/-- Only a push changes the ranges of the vector. -/
theorem ranges_step (hs : Stepped s w op s') (hop : op ≠ .push) :
    s'.buf.ranges = s.buf.ranges := by
  cases hs with
  | exhausted _ hb => rcases hb with rfl | ⟨rfl, -⟩ <;> rfl
  | cas => rfl
  | push => exact absurd rfl hop
  | write => rfl
  | setReady => exact ranges_setReady
  | addReady => rfl
  | abandon => rfl
  | setFailed => rfl

/-- **Step**: pushing the lowest range keeps file order. -/
theorem fileOrder_step (hinv : ClaimInv s) (hord : FileOrder s.buf)
    (hlow : PushesLowest s (w, op)) (hs : Stepped s w op s') : FileOrder s'.buf := by
  obtain ⟨e, he⟩ := fileOrder_iff.mp hord
  by_cases hop : op = .push
  · subst hop
    cases hs with
    | push hw =>
        rename_i a z
        have hstart : a = e := by
          refine hinv.tiles.start_of_least (r := (a, z)) he mem_ranges_iff
            (j := .inr w) (by simp) (owner_of_claimed hw) ?_
          intro o q ho hq
          cases o with
          | inl i => exact absurd rfl ho
          | inr v => exact hlow rfl a z hw v q.1 q.2 (claimed_of_owner hq)
        rw [fileOrder_iff]
        refine ⟨z, ?_⟩
        rw [put_buf, ranges_claimPush]
        exact he.snoc hstart
  · rw [fileOrder_iff]
    exact ⟨e, by rw [ranges_step hs hop]; exact he⟩

/-- A push of any other range breaks file order at once. -/
theorem pushesLowest_of_fileOrder (hinv : ClaimInv s) (hord : FileOrder s.buf)
    (hs : Stepped s w op s') (hord' : FileOrder s'.buf) : PushesLowest s (w, op) := by
  intro hop a z hw v a' z' hv
  have hop : op = .push := hop
  subst hop
  obtain ⟨e, he⟩ := fileOrder_iff.mp hord
  obtain ⟨e', he'⟩ := fileOrder_iff.mp hord'
  cases hs with
  | push hw₂ =>
      have hcall : Call.claimed a z = .claimed _ _ := hw.symm.trans hw₂
      cases hcall
      rw [put_buf, ranges_claimPush] at he'
      obtain ⟨m, hm, hlast⟩ := chain_append.mp he'
      have hstart : a = e := hlast.1.trans (hm.end_unique he)
      rw [hstart]
      exact hinv.tiles.unlisted_ge he mem_ranges_iff (j := .inr v) (by simp)
        (owner_of_claimed hv)

/-- **File order, exactly**: in a run of the claim protocol the segments
    vector is in file order in every state if and only if every push was
    made by the call with the lowest unpushed range. -/
theorem fileOrder_always_iff
    (hrun : run step (start totalSize file) acts = some s) :
    Always step (fun s => FileOrder s.buf) (start totalSize file) acts ↔
      Along step PushesLowest (start totalSize file) acts := by
  have hord₀ : FileOrder (start totalSize file).buf := ⟨nofun, nofun⟩
  constructor
  · intro halways
    have hinv : Always step ClaimInv (start totalSize file) acts :=
      always_of_step (fun _ _ _ => claimInv_of_step) (fun _ => id)
        (claimInv_start totalSize file)
    refine along_of_always ?_ hrun (always_and hinv halways)
    rintro s a s' ⟨hi, ho⟩ hs ⟨-, ho'⟩
    exact pushesLowest_of_fileOrder hi ho (stepped_of_threadStep hs) ho'
  · intro halong
    refine always_of_along (I := fun s => ClaimInv s ∧ FileOrder s.buf) ?_
      (fun _ hi => hi.2) ⟨claimInv_start totalSize file, hord₀⟩ halong
    rintro s a s' ⟨hi, ho⟩ hlow hs
    exact ⟨claimInv_of_step hi hs,
      fileOrder_step hi ho hlow (stepped_of_threadStep hs)⟩

/-- Two calls on a two-byte file that both end before anything else happens,
    the later `compare_exchange` pushing first. -/
theorem fileOrder_crossed :
    ∃ s, run step (start 2 [0, 0]) [(0, .cas 1), (1, .cas 1), (1, .push), (0, .push)]
      = some s ∧ s.buf.segments = [⟨1, 2, .downloading⟩, ⟨0, 1, .downloading⟩] ∧
      ¬ FileOrder s.buf := by
  refine ⟨_, rfl, rfl, ?_⟩
  intro h
  exact absurd (h.1 _ rfl) (by decide)

/-- The same calls, pushing in the order of their `compare_exchange`s. -/
theorem fileOrder_in_turn :
    Always step (fun s => FileOrder s.buf) (start 2 [0, 0])
        [(0, .cas 1), (1, .cas 1), (0, .push), (1, .push)] ↔
      Along step PushesLowest (start 2 [0, 0])
        [(0, .cas 1), (1, .cas 1), (0, .push), (1, .push)] :=
  fileOrder_always_iff rfl

/-! ## Completion -/

/-- The ranges of the ready segments cover the file. -/
def ReadyCovers (b : SegmentsBuffer) : Prop :=
  ∀ x, x < b.totalSize →
    ∃ seg ∈ b.segments, seg.state = .ready ∧ seg.start ≤ x ∧ x < seg.end

/-- No `claim_range` call is between its `compare_exchange` and its push. -/
def NoClaimPending (s : Shared) : Prop :=
  ∀ v a z, s.calls v ≠ .claimed a z

/-- Nobody has a claim that is pending. -/
theorem NoClaimPending.claim_eq_none (h : NoClaimPending s) (v : Nat) :
    (s.calls v).claim = none := by
  cases hc : (s.calls v).claim with
  | none => rfl
  | some r => exact absurd (Call.eq_of_claim hc) (h v _ _)

/-- A thread that is not in a claim afterwards makes none pending. -/
theorem NoClaimPending.put (h : NoClaimPending s) {b : SegmentsBuffer} {w : Nat} {c : Call}
    (hc : c.claim = none) : NoClaimPending (s.put b w c) := by
  intro v a z hv
  by_cases hvw : v = w
  · subst hvw
    rw [put_calls_self] at hv
    rw [hv] at hc
    cases hc
  · rw [put_calls_of_ne hvw] at hv
    exact h v a z hv

/-- A true `all_completed()` means that everything is assigned. -/
theorem ClaimInv.next_eq (h : ClaimInv s) (hdone : s.buf.allCompleted = true) :
    s.buf.nextUnassigned = s.buf.totalSize :=
  le_antisymm h.next_le (h.assigned (allCompleted_iff.mp hdone).1)

/-- A true `all_completed()` means that every segment in the vector is
    ready: as many have been counted as there are. -/
theorem ClaimInv.all_ready (h : ClaimInv s) (hdone : s.buf.allCompleted = true)
    {id : Nat} {seg : Segment} (hseg : s.buf.segments[id]? = some seg) :
    seg.state = .ready := by
  obtain ⟨C, hcard, hC⟩ := h.counted
  have hsub : C ⊆ Finset.range s.buf.segments.length := by
    intro i hi
    obtain ⟨⟨sg, hsg, -⟩, -⟩ := hC i hi
    exact Finset.mem_range.mpr (List.getElem?_eq_some_iff.mp hsg).1
  have hall : C = Finset.range s.buf.segments.length := by
    refine Finset.eq_of_subset_of_card_le hsub ?_
    rw [Finset.card_range, hcard]
    exact (allCompleted_iff.mp hdone).2
  have hid : id ∈ C := by
    rw [hall]
    exact Finset.mem_range.mpr (List.getElem?_eq_some_iff.mp hseg).1
  obtain ⟨⟨sg, hsg, hready⟩, -⟩ := hC id hid
  rw [hseg] at hsg
  cases hsg
  exact hready

/-- With no claim pending and nothing left to claim, the vector covers the
    file. -/
theorem ClaimInv.covers (h : ClaimInv s) (hnext : s.buf.totalSize ≤ s.buf.nextUnassigned)
    (hquiet : NoClaimPending s) {x : Nat} (hx : x < s.buf.totalSize) :
    ∃ (id : Nat) (seg : Segment), s.buf.segments[id]? = some seg ∧
      seg.start ≤ x ∧ x < seg.end := by
  obtain ⟨o, r, ho, hxr⟩ := (h.tiles.covers x).mp ⟨Nat.zero_le _, lt_of_lt_of_le hx hnext⟩
  cases o with
  | inl i =>
      have hi : s.buf.ranges[i]? = some r := ho
      rw [getElem?_ranges] at hi
      obtain ⟨seg, hseg, hr⟩ := Option.map_eq_some_iff.mp hi
      subst hr
      exact ⟨i, seg, hseg, hxr.1, hxr.2⟩
  | inr v => exact absurd (claimed_of_owner ho) (hquiet v r.1 r.2)

/-- With no claim pending, a true `all_completed()` means that the file is
    covered. -/
theorem ClaimInv.readyCovers (h : ClaimInv s) (hdone : s.buf.allCompleted = true)
    (hquiet : NoClaimPending s) : ReadyCovers s.buf := by
  intro x hx
  obtain ⟨id, seg, hseg, hlo, hhi⟩ := ClaimInv.covers h (ClaimInv.next_eq h hdone).ge hquiet hx
  exact ⟨seg, List.mem_of_getElem? hseg, ClaimInv.all_ready h hdone hseg, hlo, hhi⟩

/-- While a claim is pending the vector does not cover its range. -/
theorem ClaimInv.not_readyCovers (h : ClaimInv s) {v a z : Nat}
    (hv : s.calls v = .claimed a z) : ¬ ReadyCovers s.buf := by
  intro hcov
  have hown := owner_of_claimed hv
  have haz := h.tiles.proper _ _ hown
  have hle := le_trans (h.tiles.within hown).2 h.next_le
  obtain ⟨seg, hmem, -, hlo, hhi⟩ := hcov a (lt_of_lt_of_le haz hle)
  obtain ⟨i, hi⟩ := List.mem_iff_getElem?.mp hmem
  have hseg : owners s (.inl i) = some seg.range := by
    show s.buf.ranges[i]? = some seg.range
    rw [getElem?_ranges, hi]
    rfl
  exact nomatch h.tiles.unique _ _ _ _ a hseg hown ⟨hlo, hhi⟩ ⟨le_refl _, haz⟩

/-- **Completion, exactly**: in every reachable state in which
    `all_completed()` answers true, the ready segments cover the file if and
    only if no `claim_range` call is between its two steps. -/
theorem allCompleted_covers_iff
    (hrun : run step (start totalSize file) acts = some s)
    (hdone : s.buf.allCompleted = true) :
    ReadyCovers s.buf ↔ NoClaimPending s := by
  have hinv := claimInv_run hrun
  constructor
  · intro hcov v a z hv
    exact ClaimInv.not_readyCovers hinv hv hcov
  · exact ClaimInv.readyCovers hinv hdone

/-- One thread has taken the only byte and not pushed; another finds the
    file exhausted: `all_completed()` is true of an empty vector. -/
theorem allCompleted_early :
    ∃ s, run step (start 1 [0]) [(0, .cas 1), (1, .cas 1)] = some s ∧
      s.buf.allCompleted = true ∧ s.buf.segments = [] ∧ ¬ ReadyCovers s.buf := by
  refine ⟨_, rfl, rfl, rfl, ?_⟩
  intro h
  obtain ⟨seg, hmem, -⟩ := h 0 (by decide)
  exact nomatch hmem

/-- A one-byte download by one thread. -/
theorem allCompleted_covers_single :
    ∃ s, run step (start 1 [0]) [(0, .cas 1), (0, .push), (0, .setReady), (0, .addReady),
        (0, .cas 1)] = some s ∧ s.buf.allCompleted = true ∧
      (ReadyCovers s.buf ↔ NoClaimPending s) := by
  have hany : (run step (start 1 [0]) [(0, .cas 1), (0, .push), (0, .setReady),
      (0, .addReady), (0, .cas 1)]).any (fun s => s.buf.allCompleted) = true := by decide
  obtain ⟨s, hrun, hdone⟩ := run_of_any hany
  exact ⟨s, hrun, hdone, allCompleted_covers_iff hrun hdone⟩

end BlitzCompletion
