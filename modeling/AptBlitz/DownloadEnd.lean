import AptBlitz.RequestBounds

/-! # How a download comes to its end

    The coordinator of an HTTP download waits for messages and for workers
    that are over.  A segment brings one message and a worker is joined once,
    so the coordinator makes a bounded number of steps, whatever the workers
    do (`coordinator_steps_le`).  It stops on the way for nothing but a
    worker that is still at work (`blocked_iff`), so a download whose workers
    come to their end comes to its own (`coordinator_terminates`). -/

namespace BlitzDownloadEnd

open BlitzBuffer SegmentsBuffer BlitzDownloader BlitzDownloaderSteps BlitzDownloaderResults
open BlitzDownloaderOrphans BlitzRequestBounds Download Runs Ledger

variable {d d' : Download} {w n totalSize : Nat} {a : Act} {acts : List Act} {file : Bytes}
  {ω : Nat × Nat → Nat} {β : Nat → Nat} {pc pc' : Pc} {input : Input}

/-! ## One message for a segment -/

/-- The range whose message is sent with this step. -/
def notices (d : Download) : Act → List (Nat × Nat)
  | .worker w .go =>
      match d.workers w with
      | .notify c => [(c.start, c.end)]
      | _ => []
  | _ => []

/-- What the worker may still send a message for. -/
def unnoticed (ω : Nat × Nat → Nat) : Pc → Nat
  | .push _ a z => ω (a, z)
  | .attempt c => ω (c.start, c.end)
  | .send c => ω (c.start, c.end)
  | .body c _ => ω (c.start, c.end)
  | .chunk c _ _ => ω (c.start, c.end)
  | .markState c => ω (c.start, c.end)
  | .markCount c => ω (c.start, c.end)
  | .notify c => ω (c.start, c.end)
  | _ => 0

/-- No move adds to the messages to come. -/
theorem unnoticed_moves (h : Moves pc pc') : unnoticed ω pc' ≤ unnoticed ω pc := by
  cases h <;> exact Nat.le_refl _

/-- A claim is worth one message. -/
theorem spending_unnoticed : Spending (unnoticed ω) ω 1 where
  moves := unnoticed_moves
  claim _ := rfl
  claimed _ _ _ := (Nat.one_mul _).symm
  pushed _ _ _ _ := Nat.le_refl _
  opened _ := Nat.le_refl _
  received _ _ _ := Nat.le_refl _
  wrote _ _ _ _ _ := Nat.le_refl _
  marked _ := Nat.le_refl _
  unlisted _ := Nat.le_refl _
  counted _ := Nat.le_refl _
  measure _ := rfl
  top _ := rfl
  finish _ := rfl
  ended _ := rfl
  panicked _ := rfl

/-- A message is sent by a worker that owes it. -/
theorem notices_worker (hs : workerStep d w input = some d') :
    notices d (.worker w input) = [] ∧ d'.readyMsgs = d.readyMsgs ∨
      ∃ c, d.workers w = .notify c ∧ notices d (.worker w input) = [(c.start, c.end)] ∧
        d' = { d with readyMsgs := d.readyMsgs + 1 }.goto w (.measure c) := by
  by_cases hnotify : ∃ c, d.workers w = .notify c
  · obtain ⟨c, hw⟩ := hnotify
    cases input with
    | go =>
        simp only [workerStep, hw, Option.some.injEq] at hs
        exact Or.inr ⟨c, hw, by simp only [notices, hw], hs.symm⟩
    | panic inLock =>
        simp only [workerStep, panicStep, hw, Option.some.injEq] at hs
        exact Or.inl ⟨rfl, hs ▸ rfl⟩
    | _ =>
        simp only [workerStep, hw] at hs
        cases hs
  · have hnone : notices d (.worker w input) = [] := by
      cases input with
      | go =>
          cases hw : d.workers w with
          | notify c => exact absurd ⟨c, hw⟩ hnotify
          | _ => simp only [notices, hw]
      | _ => rfl
    refine Or.inl ⟨hnone, ?_⟩
    cases worked_of_workerStep hs with
    | notified hw => exact absurd ⟨_, hw⟩ hnotify
    | _ => rfl

/-- A worker sends a message for what it claimed. -/
theorem noticed_workerStep (hβ : Earns d.buf.totalSize ω β)
    (hsize : BlitzDownloader.minSegmentSize ≤ Pc.size (d.workers w))
    (hs : workerStep d w input = some d') :
    Afforded (unnoticed ω) Pc.size ω 1 β d.workers d.buf w d'.workers d'.buf
      (notices d (.worker w input)) := by
  rcases notices_worker hs with ⟨hnone, -⟩ | ⟨c, hc, hone, rfl⟩
  · rw [hnone]
    exact spending_unnoticed.quiet hβ hsize hs
  · have hw : ({ d with readyMsgs := d.readyMsgs + 1 }.goto w (.measure c)).workers w
        = .measure c := Function.update_self ..
    refine ⟨hw.symm ▸ rfl, rfl, id, ?_, ?_⟩
    · rw [hw, hc]
      exact id
    · rw [hone, hw, hc]
      exact Nat.le_refl _

/-- **Step**: the messages and those to come are covered by the claims. -/
theorem notices_account (hβ : Earns totalSize ω β) (d : Download) (a : Act) (d' : Download)
    (sent : List (Nat × Nat)) (h : HttpAccount (unnoticed ω) totalSize ω 1 β d sent)
    (hs : step d a = some d') :
    HttpAccount (unnoticed ω) totalSize ω 1 β d' (sent ++ notices d a) := by
  cases a with
  | worker w input => exact h.step (noticed_workerStep (h.total.symm ▸ hβ) (h.sized w) hs)
  | _ => exact httpAccount_coordinator h rfl (by rintro _ _ ⟨⟩) hs

/-- **Messages**: no more are sent than there can be segments. -/
theorem notices_bounded (hrun : run step (start n totalSize file) acts = some d) :
    (outputs step notices (start n totalSize file) acts).length
      ≤ (totalSize + (minSegmentSize - 1)) / minSegmentSize := by
  have h : HttpAccount (unnoticed fun _ => 1) totalSize (fun _ => 1) 1 (claimsUpTo totalSize) d
      (outputs step notices (start n totalSize file) acts) :=
    outputs_invariant (notices_account earns_one) (httpAccount_start rfl rfl) hrun
  exact h.count_le.trans (Nat.le_of_eq (Nat.one_mul _))

/-! ## The steps of the coordinator -/

/-- A step of the coordinator. -/
def Act.coordinator : Act → Bool
  | .worker _ _ => false
  | _ => true

/-- How many of its steps are ahead of the coordinator at most, but for
    joins and messages. -/
def phase : Coord → Nat
  | .select => 3
  | .loadActive => 4
  | .drain => 2
  | .check => 1
  | .returned _ => 0
  | .panicked => 0

/-- Of the first `m` workers, those that have been joined. -/
def joinedOf (m : Nat) (joined : Nat → Bool) : Finset Nat :=
  (Finset.range m).filter fun w => joined w = true

/-- The steps that are ahead of the coordinator, if no messages come. -/
def ahead (d : Download) : Nat :=
  2 * (d.numConnections - (joinedOf d.totalSpawned d.joined).card) + phase d.coord

/-- No more workers are spawned than there are connections. -/
structure Spawned (d : Download) : Prop where
  books : Books d
  spawned : d.totalSpawned ≤ d.numConnections

theorem spawned_start : Spawned (start n totalSize file) := ⟨books_start, Nat.min_le_left ..⟩

/-- The number of connections does not change. -/
theorem worked_connections (h : Worked d w d') : d'.numConnections = d.numConnections := by
  cases h <;> rfl

/-- **Step**: no more workers are spawned than there are connections. -/
theorem spawned_step (h : Spawned d) (hs : step d a = some d') : Spawned d' := by
  refine ⟨books_step h.books (stepped_of_step hs), ?_⟩
  cases stepped_of_step hs with
  | worker hw =>
      rw [(framed_worked hw).spawned, worked_connections hw]
      exact h.spawned
  | spawned _ hlt => exact hlt
  | _ => exact h.spawned

/-- No more workers are joined than were spawned. -/
theorem card_joinedOf_le (h : Spawned d) :
    (joinedOf d.totalSpawned d.joined).card ≤ d.numConnections := by
  have hle := Finset.card_filter_le (Finset.range d.totalSpawned) fun w => d.joined w = true
  rw [Finset.card_range] at hle
  exact hle.trans h.spawned

/-- One more worker is joined. -/
theorem card_joinedOf_update {m : Nat} {joined : Nat → Bool} (hw : w < m)
    (hj : joined w = false) :
    (joinedOf m (Function.update joined w true)).card = (joinedOf m joined).card + 1 := by
  have hnew : joinedOf m (Function.update joined w true) = insert w (joinedOf m joined) := by
    ext v
    rw [Finset.mem_insert, joinedOf, joinedOf, Finset.mem_filter, Finset.mem_filter]
    by_cases hv : v = w
    · subst hv
      rw [Function.update_self]
      exact ⟨fun _ => Or.inl rfl, fun _ => ⟨Finset.mem_range.mpr hw, rfl⟩⟩
    · rw [Function.update_of_ne hv]
      exact ⟨Or.inr, fun h => h.resolve_left hv⟩
  rw [hnew, Finset.card_insert_of_notMem]
  intro hmem
  rw [joinedOf, Finset.mem_filter, hj] at hmem
  exact Bool.false_ne_true hmem.2

/-- A worker that has just been spawned has not been joined. -/
theorem joined_spawned (h : Books d) : d.joined d.totalSpawned = false := by
  cases hj : d.joined d.totalSpawned with
  | false => rfl
  | true =>
      have hover := h.joined _ hj
      rw [h.unspawned _ (Nat.le_refl _)] at hover
      exact absurd rfl hover

/-- A worker just spawned has not been joined. -/
theorem joinedOf_spawned (h : Books d) :
    joinedOf (d.totalSpawned + 1) d.joined = joinedOf d.totalSpawned d.joined := by
  rw [joinedOf, Finset.range_add_one, Finset.filter_insert, if_neg]
  · rfl
  · rw [joined_spawned h]
    exact Bool.false_ne_true

/-- A message is received only when one is there. -/
theorem readyMsgs_pos (hs : step d .recvReady = some d') : 0 < d.readyMsgs := by
  rw [step] at hs
  split at hs
  next hmsg => exact hmsg.2
  next => cases hs

/-- The coordinator goes on to a later phase, and nothing else counts. -/
theorem ahead_phase {c c' : Coord} {cancelled : Bool} (hc : d.coord = c)
    (hlt : phase c' < phase c) :
    1 + (ahead { d with coord := c', cancelled := cancelled } + d.readyMsgs)
      ≤ ahead d + d.readyMsgs + 0 := by
  have hold : ahead d
      = 2 * (d.numConnections - (joinedOf d.totalSpawned d.joined).card) + phase c := by
    rw [ahead, hc]
  rw [hold]
  show 1 + (2 * (d.numConnections - (joinedOf d.totalSpawned d.joined).card) + phase c'
    + d.readyMsgs) ≤ _
  omega

/-- **Step**: a step of the coordinator takes it ahead, or a message. -/
theorem ahead_step (h : Spawned d) (hs : step d a = some d') :
    (if Act.coordinator a then 1 else 0) + (ahead d' + d'.readyMsgs)
      ≤ ahead d + d.readyMsgs + (notices d a).length := by
  have hle := card_joinedOf_le (spawned_step h hs)
  cases stepped_of_step hs with
  | @worker w input d' hw =>
      have hf := framed_worked hw
      have hsame : ahead d' = ahead d := by
        rw [ahead, ahead, hf.spawned, hf.joined, hf.coord, worked_connections hw]
      rcases notices_worker hs with ⟨-, hmsgs⟩ | ⟨c, -, hone, rfl⟩
      · rw [hsame, hmsgs]
        show 0 + _ ≤ _
        omega
      · rw [hsame, hone]
        show 0 + (ahead d + (d.readyMsgs + 1)) ≤ ahead d + d.readyMsgs + 1
        omega
  | spawned hc hlt =>
      have hmsg := readyMsgs_pos hs
      have hsame : ahead (spawnOneWorker { d with readyMsgs := d.readyMsgs - 1 }) = ahead d := by
        show 2 * (d.numConnections - (joinedOf (d.totalSpawned + 1) d.joined).card)
          + phase d.coord = _
        rw [joinedOf_spawned h.books]
        rfl
      rw [hsame]
      show 1 + (ahead d + (d.readyMsgs - 1)) ≤ ahead d + d.readyMsgs + 0
      omega
  | recv hc =>
      have hmsg := readyMsgs_pos hs
      show 1 + (ahead d + (d.readyMsgs - 1)) ≤ ahead d + d.readyMsgs + 0
      omega
  | @joined w r hc hw hj =>
      have hmore := card_joinedOf_update hw hj
      have hle : (joinedOf d.totalSpawned (Function.update d.joined w true)).card
        ≤ d.numConnections := hle
      show 1 + (2 * (d.numConnections - (joinedOf d.totalSpawned
        (Function.update d.joined w true)).card) + 4 + d.readyMsgs) ≤ ahead d + d.readyMsgs + 0
      rw [ahead, hc, phase]
      omega
  | @fatal w e hc hw hj =>
      have hmore := card_joinedOf_update hw hj
      show 1 + (2 * (d.numConnections - (joinedOf d.totalSpawned
        (Function.update d.joined w true)).card) + 0 + d.readyMsgs) ≤ ahead d + d.readyMsgs + 0
      rw [ahead, hc, phase]
      omega
  | @drained w r hc hw hj =>
      have hmore := card_joinedOf_update hw hj
      have hle : (joinedOf d.totalSpawned (Function.update d.joined w true)).card
        ≤ d.numConnections := hle
      show 1 + (2 * (d.numConnections - (joinedOf d.totalSpawned
        (Function.update d.joined w true)).card) + phase d.coord + d.readyMsgs)
          ≤ ahead d + d.readyMsgs + 0
      rw [ahead]
      omega
  | noneLeft hc => exact ahead_phase hc (by decide)
  | allJoined hc => exact ahead_phase hc (by decide)
  | noneActive hc => exact ahead_phase hc (by decide)
  | someActive hc => exact ahead_phase hc (by decide)
  | checkPanicked hc => exact ahead_phase hc (by decide)
  | completed hc => exact ahead_phase hc (by decide)
  | incomplete hc => exact ahead_phase hc (by decide)

/-- The steps of a run that are the coordinator's. -/
theorem coordinator_steps_le (hrun : run step (start n totalSize file) acts = some d) :
    acts.countP Act.coordinator
      ≤ (totalSize + (minSegmentSize - 1)) / minSegmentSize + 2 * n + 3 := by
  have hpay : ∀ s a s', Spawned s → step s a = some s' →
      (if Act.coordinator a then [a] else []).length + (ahead s' + s'.readyMsgs) + 0
        ≤ ahead s + s.readyMsgs + 0 + (notices s a).length := by
    intro s a s' h hs
    have hstep := ahead_step h hs
    split
    next hc =>
      rw [if_pos hc] at hstep
      exact hstep
    next hc =>
      rw [if_neg hc] at hstep
      exact hstep
  have hpaid : (outputs step (fun _ a => if Act.coordinator a then [a] else [])
        (start n totalSize file) acts).length + (ahead d + d.readyMsgs) + 0
      ≤ ahead (start n totalSize file) + 0 + 0
        + (outputs step notices (start n totalSize file) acts).length :=
    length_outputs_le (I := Spawned) (φ := fun d => ahead d + d.readyMsgs) (ψ := fun _ => 0)
      (fun _ _ _ h hs => spawned_step h hs) hpay spawned_start hrun
  rw [outputs_of_kind hrun, ← List.countP_eq_length_filter] at hpaid
  have hmsgs := notices_bounded hrun
  have hstart : ahead (start n totalSize file) ≤ 2 * n + 3 :=
    Nat.add_le_add_right (Nat.mul_le_mul_left 2 (Nat.sub_le ..)) 3
  omega

/-! ## When it stops -/

/-- The coordinator waits: the channel is empty or no longer read, and every
    worker it has not joined is at work. -/
structure Waits (d : Download) : Prop where
  loop : d.coord = .select ∧ d.readyMsgs = 0 ∨ d.coord = .drain
  somebody : ∃ w, w < d.totalSpawned ∧ d.joined w = false
  busy : ∀ w, w < d.totalSpawned → d.joined w = false → (d.workers w).joinResult = none

/-- The coordinator can make no step. -/
def Blocked (d : Download) : Prop := ∀ a, Act.coordinator a = true → step d a = none

/-- A join has to wait for a worker that is running. -/
theorem joinStep_loop (hloop : d.coord = .select ∨ d.coord = .drain) :
    joinStep d w = none ↔
      (w < d.totalSpawned → d.joined w = false → (d.workers w).joinResult = none) := by
  rw [joinStep]
  by_cases hguard : w < d.totalSpawned ∧ d.joined w = false
  · rw [if_pos hguard]
    cases hr : (d.workers w).joinResult with
    | none => exact iff_of_true rfl fun _ _ => rfl
    | some r =>
        refine iff_of_false (fun hnone => ?_) fun h =>
          Option.some_ne_none r (h hguard.1 hguard.2)
        rcases hloop with hc | hc
        · simp only [hc] at hnone
          split at hnone
          next =>
            split at hnone <;> cases hnone
          next => cases hnone
        · simp only [hc] at hnone
          cases hnone
  · rw [if_neg hguard]
    exact iff_of_true rfl fun hw hj => absurd ⟨hw, hj⟩ hguard

/-- `join_next` has to wait while a worker has not been joined. -/
theorem joinNone_loop (hloop : d.coord = .select ∨ d.coord = .drain) :
    step d .joinNone = none ↔ ∃ w, w < d.totalSpawned ∧ d.joined w = false := by
  have hall : (List.range d.totalSpawned).all d.joined = true ↔
      ¬ ∃ w, w < d.totalSpawned ∧ d.joined w = false := by
    rw [List.all_eq_true, not_exists]
    refine forall_congr' fun w => ?_
    rw [List.mem_range, not_and, Bool.not_eq_false]
  rw [step]
  by_cases hj : (List.range d.totalSpawned).all d.joined = true
  · rw [if_pos hj]
    refine iff_of_false (fun hnone => ?_) (hall.mp hj)
    rcases hloop with hc | hc <;> simp only [hc] at hnone <;> cases hnone
  · rw [if_neg hj]
    exact iff_of_true rfl (not_not.mp (mt hall.mpr hj))

/-- A coordinator that has returned makes no step. -/
theorem over_blocked (h : Over d) : Blocked d := by
  intro a ha
  cases a with
  | worker w input => cases ha
  | recvReady =>
      rw [step]
      rcases h with ⟨r, hc⟩ | hc <;> rw [hc] <;> exact if_neg (by rintro ⟨⟨⟩, -⟩)
  | join w =>
      show joinStep d w = none
      rw [joinStep]
      split
      next =>
        split
        next => rfl
        next => rcases h with ⟨r, hc⟩ | hc <;> simp only [hc]
      next => rfl
  | joinNone =>
      rw [step]
      split
      next => rcases h with ⟨r, hc⟩ | hc <;> simp only [hc]
      next => rfl
  | loadActive =>
      rw [step]
      rcases h with ⟨r, hc⟩ | hc <;> rw [hc] <;> exact if_neg (by rintro ⟨⟩)
  | check =>
      rw [step]
      rcases h with ⟨r, hc⟩ | hc <;> rw [hc] <;> exact if_neg (by rintro ⟨⟩)

/-- A coordinator that waits for all its workers makes no step. -/
theorem waits_blocked (h : Waits d) : Blocked d := by
  have hloop : d.coord = .select ∨ d.coord = .drain := h.loop.imp_left And.left
  intro a ha
  cases a with
  | worker w input => cases ha
  | recvReady =>
      rw [step, if_neg]
      rintro ⟨hc, hmsg⟩
      rcases h.loop with ⟨-, hzero⟩ | hdrain
      · omega
      · cases hc.symm.trans hdrain
  | join w => exact (joinStep_loop hloop).mpr (h.busy w)
  | joinNone => exact (joinNone_loop hloop).mpr h.somebody
  | loadActive =>
      rw [step]
      rcases hloop with hc | hc <;> rw [hc] <;> exact if_neg (by rintro ⟨⟩)
  | check =>
      rw [step]
      rcases hloop with hc | hc <;> rw [hc] <;> exact if_neg (by rintro ⟨⟩)

/-- **What the coordinator waits for**: a download that has not ended stops
    for workers that are still at work, and for nothing else. -/
theorem blocked_iff : Blocked d ↔ Over d ∨ Waits d := by
  refine ⟨fun h => ?_, fun h => h.elim over_blocked waits_blocked⟩
  have hwaits : (d.coord = .select ∧ d.readyMsgs = 0 ∨ d.coord = .drain) → Waits d := by
    intro hc
    have hloop : d.coord = .select ∨ d.coord = .drain := hc.imp_left And.left
    exact ⟨hc, (joinNone_loop hloop).mp (h .joinNone rfl),
      fun w => (joinStep_loop hloop).mp (h (.join w) rfl)⟩
  cases hc : d.coord with
  | select =>
      have hrecv := h .recvReady rfl
      rw [step] at hrecv
      by_cases hmsg : d.coord = .select ∧ 0 < d.readyMsgs
      · rw [if_pos hmsg] at hrecv
        dsimp only at hrecv
        split at hrecv <;> cases hrecv
      · exact Or.inr (hwaits (Or.inl ⟨hc, Nat.eq_zero_of_not_pos fun h => hmsg ⟨hc, h⟩⟩))
  | drain => exact Or.inr (hwaits (Or.inr hc))
  | loadActive =>
      have hload := h .loadActive rfl
      rw [step, if_pos hc] at hload
      split at hload <;> cases hload
  | check =>
      have hcheck := h .check rfl
      rw [step, if_pos hc] at hcheck
      split at hcheck
      next => cases hcheck
      next => split at hcheck <;> cases hcheck
  | returned r => exact Or.inl (Or.inl ⟨r, hc⟩)
  | panicked => exact Or.inl (Or.inr hc)

/-- **The coordinator terminates**: in every run it makes at most one step
    for each `MIN_SEGMENT_SIZE` bytes of the file, two for each connection
    and three more.  Where it can make no further step, the download has come
    to its end or a worker that was spawned has not. -/
theorem coordinator_terminates (hrun : run step (start n totalSize file) acts = some d) :
    acts.countP Act.coordinator
      ≤ (totalSize + (minSegmentSize - 1)) / minSegmentSize + 2 * n + 3 ∧
    (Blocked d → Over d ∨
      ∃ w, w < d.totalSpawned ∧ d.joined w = false ∧ (d.workers w).joinResult = none) := by
  refine ⟨coordinator_steps_le hrun, fun hblocked => ?_⟩
  rcases blocked_iff.mp hblocked with hover | hwaits
  · exact Or.inl hover
  · obtain ⟨w, hw, hj⟩ := hwaits.somebody
    exact Or.inr ⟨w, hw, hj, hwaits.busy w hw hj⟩

theorem coordinator_terminates_oneByte :
    ∃ d, run step (start 1 1 [0]) BlitzDownloaderResults.oneByte = some d ∧
      (BlitzDownloaderResults.oneByte).countP Act.coordinator
        ≤ (1 + (minSegmentSize - 1)) / minSegmentSize + 2 * 1 + 3 ∧
      (Blocked d → Over d ∨
        ∃ w, w < d.totalSpawned ∧ d.joined w = false ∧ (d.workers w).joinResult = none) := by
  have hany : (run step (start 1 1 [0]) BlitzDownloaderResults.oneByte).any (fun d =>
      decide (d.coord = .returned (.ok ()))) = true := by decide
  obtain ⟨d, hrun, -⟩ := run_of_any hany
  exact ⟨d, hrun, coordinator_terminates hrun⟩

end BlitzDownloadEnd
