import AptBlitz.FtpRuns

/-! # What `download_ftp_multithreaded` returns

    `Ok(())` means that no worker failed.  It does not mean that the file is
    complete: the end of a data connection counts as the end of the segment,
    wherever it comes, and without workers there is nothing that could fail.
    `ftp_ok_sound_iff` says that nothing else goes wrong. -/

namespace BlitzFtpResults

open BlitzBuffer SegmentsBuffer BlitzTransfers BlitzClients BlitzFtp
open BlitzFtpSteps BlitzFtpRuns Download Runs Tiling
open BlitzCompletion (NoClaimPending)

variable {d d' : Download} {w : Nat} {a : Act} {acts : List Act} {input : Input}
  {n totalSize : Nat} {file : Bytes} {clean : Prop}

/-! ## The coordinator's books -/

/-- The worker holds segment `id`, or it failed. -/
def Answers (pc : Pc) (id : Nat) : Prop :=
  (∃ a z, pc.call = .holds id a z) ∨ (∃ e, pc = .ended (.error e)) ∨ ∃ l, pc = .panicked l

/-- A worker that waits for the last reply holds its segment. -/
theorem Answers.holds {pc : Pc} {id : Nat} (h : Answers pc id) (hj : pc.joinResult = none) :
    ∃ a z, pc.call = .holds id a z := by
  rcases h with h | ⟨e, rfl⟩ | ⟨l, rfl⟩
  · exact h
  · exact nomatch hj
  · exact nomatch hj

/-- The step of worker `w` had nothing to do with the segment. -/
def Stays (d : Download) (w : Nat) (id : Nat) (seg' : Segment) : Prop :=
  ∃ seg : Segment, d.buf.segments[id]? = some seg ∧
    (seg.state = .ready → seg'.state = .ready) ∧ ¬ Answers (d.workers w) id

/-- What every worker's step leaves alone, and what it needs. -/
structure Framed (d : Download) (w : Nat) (d' : Download) : Prop where
  alive : (d.workers w).joinResult = none
  spawned : d.workers w ≠ .unspawned
  others : ∀ v, v ≠ w → d'.workers v = d.workers v
  connections : d'.numConnections = d.numConnections
  coord : d'.coord = d.coord
  cancel : d'.cancelled = d.cancelled
  size : d'.buf.totalSize = d.buf.totalSize
  next : d.buf.nextUnassigned ≤ d'.buf.nextUnassigned
  exhausted : d'.workers w = .quit ∨ d'.workers w = .ended (.ok ()) →
    d.workers w = .quit ∨ d.buf.totalSize ≤ d.buf.nextUnassigned
  cancelled : d'.workers w = .ended (.error .cancelled) → d.cancelled = true
  segs : ∀ (id : Nat) (seg' : Segment), d'.buf.segments[id]? = some seg' →
    seg'.state = .ready ∨ Answers (d'.workers w) id ∨ Stays d w id seg'

/-- A step that changes one worker, the buffer and the log. -/
theorem framed_put {pc : Pc} {b : SegmentsBuffer} {p : Bool} {log : List (Event DataConnection)}
    (hj : (d.workers w).joinResult = none) (hs : d.workers w ≠ .unspawned)
    (hsize : b.totalSize = d.buf.totalSize) (hnext : d.buf.nextUnassigned ≤ b.nextUnassigned)
    (hsegs : ∀ (id : Nat) (seg' : Segment), b.segments[id]? = some seg' →
      seg'.state = .ready ∨ Answers pc id ∨ Stays d w id seg')
    (hexh : pc = .quit ∨ pc = .ended (.ok ()) →
      d.workers w = .quit ∨ d.buf.totalSize ≤ d.buf.nextUnassigned)
    (hcanc : pc = .ended (.error .cancelled) → d.cancelled = true) :
    Framed d w { d with
      buf := b, workers := Function.update d.workers w pc, poisoned := p, log := log } := by
  have hself : Function.update d.workers w pc w = pc := Function.update_self ..
  refine ⟨hj, hs, fun v hv => Function.update_of_ne hv .., rfl, rfl, rfl, hsize, hnext, ?_, ?_, ?_⟩
  · intro h
    exact hexh (hself ▸ h)
  · intro h
    exact hcanc (hself ▸ h)
  · intro id seg' hseg'
    show _ ∨ Answers (Function.update d.workers w pc w) id ∨ _
    rw [hself]
    exact hsegs id seg' hseg'

/-- Steps that leave the segments vector alone. -/
theorem framed_of {pc : Pc} {b : SegmentsBuffer} {p : Bool} {log : List (Event DataConnection)}
    (hj : (d.workers w).joinResult = none) (hs : d.workers w ≠ .unspawned)
    (hsize : b.totalSize = d.buf.totalSize) (hnext : d.buf.nextUnassigned ≤ b.nextUnassigned)
    (hsegs : b.segments = d.buf.segments)
    (hkeep : ∀ id, id < d.buf.segments.length →
      (∃ a z, (d.workers w).call = .holds id a z) → Answers pc id)
    (hexh : pc = .quit ∨ pc = .ended (.ok ()) →
      d.workers w = .quit ∨ d.buf.totalSize ≤ d.buf.nextUnassigned)
    (hcanc : pc = .ended (.error .cancelled) → d.cancelled = true) :
    Framed d w { d with
      buf := b, workers := Function.update d.workers w pc, poisoned := p, log := log } := by
  refine framed_put hj hs hsize hnext ?_ hexh hcanc
  intro id seg hseg
  rw [hsegs] at hseg
  by_cases ha : Answers (d.workers w) id
  · exact Or.inr (Or.inl (hkeep id (List.getElem?_eq_some_iff.mp hseg).1 (ha.holds hj)))
  · exact Or.inr (Or.inr ⟨seg, hseg, fun h => h, ha⟩)

/-- A worker that moves is at work before and after. -/
theorem moves_framed {pc pc' : Pc} (h : Moves pc pc') :
    pc.joinResult = none ∧ pc ≠ .unspawned ∧ pc' ≠ .quit ∧ pc'.joinResult = none := by
  cases h <;> exact ⟨rfl, nofun, nofun, rfl⟩

/-- A step with the same call goes on, and leaves the segments alone. -/
theorem framed_same {pc pc' : Pc} {b : SegmentsBuffer} {p : Bool}
    {log : List (Event DataConnection)} (hw : d.workers w = pc) (hj : pc.joinResult = none)
    (hs : pc ≠ .unspawned) (hj' : pc'.joinResult = none) (hq : pc' ≠ .quit)
    (hcall : pc'.call = pc.call) (hsize : b.totalSize = d.buf.totalSize)
    (hnext : b.nextUnassigned = d.buf.nextUnassigned) (hsegs : b.segments = d.buf.segments) :
    Framed d w { d with
      buf := b, workers := Function.update d.workers w pc', poisoned := p, log := log } := by
  subst hw
  refine framed_of hj hs hsize (Nat.le_of_eq hnext.symm) hsegs ?_ ?_ ?_
  · rintro id - ⟨a, z, hc⟩
    exact Or.inl ⟨a, z, hcall.trans hc⟩
  · rintro (rfl | rfl)
    · exact absurd rfl hq
    · cases hj'
  · rintro rfl
    cases hj'

/-- A worker that holds nothing has no segment to keep. -/
theorem framed_idle {pc pc' : Pc} {b : SegmentsBuffer} {p : Bool}
    {log : List (Event DataConnection)} (hw : d.workers w = pc) (hj : pc.joinResult = none)
    (hs : pc ≠ .unspawned) (hno : ∀ id a z, pc.call ≠ .holds id a z)
    (hsize : b.totalSize = d.buf.totalSize) (hnext : d.buf.nextUnassigned ≤ b.nextUnassigned)
    (hsegs : b.segments = d.buf.segments)
    (hexh : pc' = .quit ∨ pc' = .ended (.ok ()) →
      pc = .quit ∨ d.buf.totalSize ≤ d.buf.nextUnassigned)
    (hcanc : pc' = .ended (.error .cancelled) → d.cancelled = true) :
    Framed d w { d with
      buf := b, workers := Function.update d.workers w pc', poisoned := p, log := log } := by
  subst hw
  refine framed_of hj hs hsize hnext hsegs ?_ hexh hcanc
  rintro id - ⟨a, z, hc⟩
  exact absurd hc (hno id a z)

/-- The worker goes on, and holds another segment or none. -/
theorem stays_of {pc : Pc} {id : Nat} {seg : Segment} (hw : d.workers w = pc)
    (hj : pc.joinResult = none) (hseg : d.buf.segments[id]? = some seg)
    (hno : ∀ a z, pc.call ≠ .holds id a z) : Stays d w id seg := by
  subst hw
  refine ⟨seg, hseg, fun h => h, ?_⟩
  intro ha
  obtain ⟨a, z, hc⟩ := ha.holds hj
  exact hno a z hc

/-- After a push the last segment is the worker's, and the others stay. -/
theorem segs_push {pc pc' : Pc} {id a z : Nat} {seg : Segment} (hw : d.workers w = pc)
    (hj : pc.joinResult = none) (hno : ∀ id a z, pc.call ≠ .holds id a z)
    (hnew : pc'.call = .holds d.buf.segments.length a z)
    (hseg : (d.buf.segments ++ [⟨a, z, .downloading⟩])[id]? = some seg) :
    Answers pc' id ∨ Stays d w id seg := by
  by_cases hid : id < d.buf.segments.length
  · rw [List.getElem?_append_left hid] at hseg
    exact Or.inr (stays_of hw hj hseg (hno id))
  · have hlen := (List.getElem?_eq_some_iff.mp hseg).1
    rw [List.length_append, List.length_singleton] at hlen
    have hlast : id = d.buf.segments.length := by omega
    subst hlast
    exact Or.inl (Or.inl ⟨a, z, hnew⟩)

/-- The segment that its worker sets ready is ready, and the others stay. -/
theorem segs_setReady {pc : Pc} {id id' : Nat} {seg : Segment} (hw : d.workers w = pc)
    (hj : pc.joinResult = none) (hmine : ∀ id a z, pc.call = .holds id a z → id = id')
    (hseg : (d.buf.setReady id').segments[id]? = some seg) :
    seg.state = .ready ∨ Stays d w id seg := by
  by_cases hid : id = id'
  · subst hid
    have hlen := (List.getElem?_eq_some_iff.mp hseg).1
    rw [length_setReady] at hlen
    rw [setReady_self (List.getElem?_eq_getElem hlen)] at hseg
    cases hseg
    exact Or.inl rfl
  · rw [setReady_of_ne hid] at hseg
    exact Or.inr (stays_of hw hj hseg fun a z hc => hid (hmine id a z hc))

/-- **Step of a worker**: what it leaves alone. -/
theorem framed_worked (h : Worked d w input d') : Framed d w d' := by
  have hat : ∀ {pc}, d.workers w = pc → pc.joinResult = none →
      (d.workers w).joinResult = none := fun hw hj => hw ▸ hj
  have hsp : ∀ {pc}, d.workers w = pc → pc ≠ .unspawned → d.workers w ≠ .unspawned :=
    fun hw hs => hw ▸ hs
  cases h with
  | moved hm =>
      obtain ⟨hj, hs, hq, hj'⟩ := moves_framed hm
      exact framed_same rfl hj hs hj' hq (moves_call hm) rfl rfl rfl
  | failed hj hs _ he =>
      refine framed_of hj hs rfl (Nat.le_refl _) rfl (fun _ _ _ => Or.inr (Or.inl ⟨_, rfl⟩))
        (by rintro (h | h) <;> cases h) ?_
      rintro ⟨⟩
      exact he rfl
  | @exhausted _ b p hw hcas =>
      have hnext := claimCas_none_pos hcas p.2
      rcases claimCas_none hcas with rfl | ⟨rfl, -⟩
      · exact framed_idle hw rfl (by rintro ⟨⟩) (by rintro _ _ _ ⟨⟩) rfl (Nat.le_refl _) rfl
          (fun _ => Or.inr hnext) (by rintro ⟨⟩)
      · exact framed_idle hw rfl (by rintro ⟨⟩) (by rintro _ _ _ ⟨⟩) rfl (Nat.le_refl _) rfl
          (fun _ => Or.inr hnext) (by rintro ⟨⟩)
  | cas hw hcas =>
      obtain ⟨rfl, hr, hlt, -⟩ := claimCas_some hcas
      refine framed_idle hw rfl (by rintro ⟨⟩) (by rintro _ _ _ ⟨⟩) rfl ?_ rfl
        (by rintro (h | h) <;> cases h) (by rintro ⟨⟩)
      show d.buf.nextUnassigned ≤ Prod.snd _
      omega
  | push hw =>
      refine framed_put (hat hw rfl) (hsp hw (by rintro ⟨⟩)) rfl (Nat.le_refl _) ?_
        (by rintro (h | h) <;> cases h) (by rintro ⟨⟩)
      intro id seg hseg
      exact Or.inr (segs_push hw rfl (by rintro _ _ _ ⟨⟩) rfl hseg)
  | opened hw =>
      exact framed_same hw rfl (by rintro ⟨⟩) rfl (by rintro ⟨⟩) rfl rfl rfl rfl
  | received hw =>
      exact framed_same hw rfl (by rintro ⟨⟩) rfl (by rintro ⟨⟩) rfl rfl rfl rfl
  | closedEarly hw =>
      exact framed_same hw rfl (by rintro ⟨⟩) rfl (by rintro ⟨⟩) rfl rfl rfl rfl
  | wrote hw hwrite =>
      obtain ⟨file, rfl⟩ := writeData_file hwrite
      rw [readLoop]
      split
      · exact framed_same hw rfl (by rintro ⟨⟩) rfl (by rintro ⟨⟩) rfl rfl rfl rfl
      · exact framed_same hw rfl (by rintro ⟨⟩) rfl (by rintro ⟨⟩) rfl rfl rfl rfl
  | wroteSome hw hwrite =>
      obtain ⟨file, rfl⟩ := writeData_file hwrite
      exact framed_of (hat hw rfl) (hsp hw (by rintro ⟨⟩)) rfl (Nat.le_refl _) rfl
        (fun _ _ _ => Or.inr (Or.inl ⟨_, rfl⟩)) (by rintro (h | h) <;> cases h) (by rintro ⟨⟩)
  | @ready _ c hw =>
      refine framed_put (hat hw rfl) (hsp hw (by rintro ⟨⟩)) rfl (Nat.le_refl _) ?_
        (by rintro (h | h) <;> cases h) (by rintro ⟨⟩)
      intro id seg hseg
      have hmine : ∀ id' a z, (Pc.markState c).call = .holds id' a z → id' = c.id := by
        rintro _ _ _ ⟨⟩
        rfl
      exact (segs_setReady hw rfl hmine hseg).imp_right Or.inr
  | @unlisted _ c hw hlen =>
      refine framed_of (hat hw rfl) (hsp hw (by rintro ⟨⟩)) rfl (Nat.le_refl _) rfl ?_
        (by rintro (h | h) <;> cases h) (by rintro ⟨⟩)
      rintro id hid ⟨a, z, hc⟩
      rw [hw] at hc
      cases hc
      exact absurd hid (not_lt.mpr hlen)
  | counted hw =>
      exact framed_idle hw rfl (by rintro ⟨⟩) (by rintro _ _ _ ⟨⟩) rfl (Nat.le_refl _) rfl
        (by rintro (h | h) <;> cases h) (by rintro ⟨⟩)
  | finished hw =>
      exact framed_idle hw rfl (by rintro ⟨⟩) (by rintro _ _ _ ⟨⟩) rfl (Nat.le_refl _) rfl
        (fun _ => Or.inl rfl) (by rintro ⟨⟩)
  | panicked hj hs =>
      exact framed_of hj hs rfl (Nat.le_refl _) rfl (fun _ _ _ => Or.inr (Or.inr ⟨_, rfl⟩))
        (by rintro (h | h) <;> cases h) (by rintro ⟨⟩)

/-- What the coordinator knows of its workers. -/
structure Books (d : Download) : Prop where
  unspawned : ∀ w, d.numConnections ≤ w → d.workers w = .unspawned
  /-- without workers there are no segments -/
  nobody : d.numConnections = 0 → d.buf.segments = []
  exhausted : ∀ w, d.workers w = .quit ∨ d.workers w = .ended (.ok ()) →
    d.buf.totalSize ≤ d.buf.nextUnassigned
  cancelled : ∀ w, d.workers w = .ended (.error .cancelled) → d.cancelled = true
  segs : ∀ (id : Nat) (seg : Segment), d.buf.segments[id]? = some seg →
    seg.state = .ready ∨ ∃ w, Answers (d.workers w) id
  awaiting : ∀ i errors, d.coord = .awaiting i errors →
    (d.cancelled = true → errors ≠ []) ∧ ∀ v, v < i →
      (d.workers v).joinResult ≠ none ∧ (errors = [] → d.workers v = .ended (.ok ()))
  ok : d.coord = .returned (.ok ()) →
    ∀ v, v < d.numConnections → d.workers v = .ended (.ok ())

/-- At the start. -/
theorem books_start : Books (start n totalSize file) where
  unspawned w hw := if_neg (not_lt.mpr hw)
  nobody _ := rfl
  exhausted w h := by
    have : (start n totalSize file).workers w = if w < n then .permit else .unspawned := rfl
    rw [this] at h
    split at h <;> rcases h with h | h <;> cases h
  cancelled w h := by
    have : (start n totalSize file).workers w = if w < n then .permit else .unspawned := rfl
    rw [this] at h
    split at h <;> cases h
  segs _ _ h := nomatch h
  awaiting i errors h := by
    cases h
    exact ⟨nofun, nofun⟩
  ok h := nomatch h

/-- A worker that was spawned is one of `num_connections`. -/
theorem Books.spawned_lt (h : Books d) (hs : d.workers w ≠ .unspawned) :
    w < d.numConnections := by
  by_contra hw
  exact hs (h.unspawned w (not_lt.mp hw))

/-- A worker's step keeps the books. -/
theorem Books.worked (h : Books d) (hf : Framed d w d') : Books d' := by
  have hlt := h.spawned_lt hf.spawned
  refine ⟨?_, ?_, ?_, ?_, ?_, ?_, ?_⟩
  · intro v hv
    rw [hf.connections] at hv
    rw [hf.others v (by omega)]
    exact h.unspawned v hv
  · rw [hf.connections]
    intro h0
    omega
  · intro v hv
    rw [hf.size]
    refine le_trans ?_ hf.next
    by_cases hvw : v = w
    · subst hvw
      rcases hf.exhausted hv with hq | hdone
      · exact h.exhausted v (Or.inl hq)
      · exact hdone
    · rw [hf.others v hvw] at hv
      exact h.exhausted v hv
  · intro v hv
    rw [hf.cancel]
    by_cases hvw : v = w
    · subst hvw
      exact hf.cancelled hv
    · rw [hf.others v hvw] at hv
      exact h.cancelled v hv
  · intro id seg' hseg'
    rcases hf.segs id seg' hseg' with hr | ha | ⟨seg, hseg, hready, hno⟩
    · exact Or.inl hr
    · exact Or.inr ⟨w, ha⟩
    · rcases h.segs id seg hseg with hr | ⟨v, ha⟩
      · exact Or.inl (hready hr)
      · have hvw : v ≠ w := by
          rintro rfl
          exact hno ha
        exact Or.inr ⟨v, by rw [hf.others v hvw]; exact ha⟩
  · intro i errors hc
    rw [hf.coord] at hc
    obtain ⟨hcancel, hbefore⟩ := h.awaiting i errors hc
    rw [hf.cancel]
    refine ⟨hcancel, ?_⟩
    intro v hv
    obtain ⟨hj, hend⟩ := hbefore v hv
    have hvw : v ≠ w := by
      rintro rfl
      exact hj hf.alive
    rw [hf.others v hvw]
    exact ⟨hj, hend⟩
  · intro hc
    rw [hf.coord] at hc
    -- after `Ok(())` no worker runs
    have hended := h.ok hc w hlt
    have := hf.alive
    rw [hended] at this
    exact nomatch this

/-- The coordinator's step keeps the books. -/
theorem Books.awaited (h : Books d) (hs : Awaited d d') : Books d' := by
  cases hs with
  | @fine i errors r hc hr hok =>
      obtain ⟨hcancel, hbefore⟩ := h.awaiting i errors hc
      refine ⟨h.unspawned, h.nobody, h.exhausted, h.cancelled, h.segs, ?_, nofun⟩
      rintro i' errors' ⟨⟩
      refine ⟨hcancel, ?_⟩
      intro v hv
      by_cases hvi : v = i
      · subst hvi
        -- the result was awaited, so the worker has ended with it
        have hend : d.workers v = .ended r := by
          cases hpc : d.workers v with
          | ended r' => rw [hpc] at hr; cases hr; rfl
          | panicked l => rw [hpc] at hr; cases hr
          | _ => rw [hpc] at hr; cases hr
        refine ⟨by rw [hr]; exact nofun, ?_⟩
        intro hnone
        rcases hok with rfl | rfl
        · exact hend
        · exact absurd hnone (hcancel (h.cancelled v hend))
      · exact hbefore v (by omega)
  | @failed i errors r e hc hr =>
      obtain ⟨hcancel, hbefore⟩ := h.awaiting i errors hc
      refine ⟨h.unspawned, h.nobody, h.exhausted, fun _ _ => rfl, h.segs, ?_, nofun⟩
      rintro i' errors' ⟨⟩
      -- `errors` has an element now
      have hne : errors ++ [e] ≠ [] := by simp
      refine ⟨fun _ => hne, ?_⟩
      intro v hv
      refine ⟨?_, fun hnone => absurd hnone hne⟩
      by_cases hvi : v = i
      · subst hvi
        show (d.workers v).joinResult ≠ none
        rw [hr]
        exact nofun
      · exact (hbefore v (by omega)).1
  | @ok i hc hi =>
      obtain ⟨-, hbefore⟩ := h.awaiting i [] hc
      refine ⟨h.unspawned, h.nobody, h.exhausted, h.cancelled, h.segs, nofun, ?_⟩
      intro _ v hv
      exact (hbefore v (lt_of_lt_of_le hv hi)).2 rfl
  | errors hc =>
      exact ⟨h.unspawned, h.nobody, h.exhausted, h.cancelled, h.segs, nofun, nofun⟩

/-! ## Whole runs -/

/-- A read of a data connection finds its end. -/
def ClosesEarly (a : Act) : Prop := ∃ w, a = .worker w (.read (.ok []))

/-- What holds of a download. -/
structure RunInv (totalSize : Nat) (clean : Prop) (d : Download) : Prop where
  log : LogOk (client clean) (Marked clean) (snap d)
  books : Books d
  buffer : BufferInv totalSize (view clean d)

/-- At the start. -/
theorem runInv_start (hfile : file.length = totalSize) :
    RunInv totalSize clean (start n totalSize file) := by
  have hworkers : ∀ w, (start n totalSize file).workers w = if w < n then .permit else .unspawned :=
    fun _ => rfl
  refine ⟨logInv_start ?_, books_start, ?_⟩
  · intro w
    show Pc.doing clean ((start n totalSize file).workers w) = none
    rw [hworkers]
    split <;> rfl
  · have hview : view clean (start n totalSize file) = BlitzClaims.start totalSize file := by
      rw [view, Snap.view, BlitzClaims.start]
      congr 1
      funext w
      show ((start n totalSize file).workers w).call = .idle
      rw [hworkers]
      split <;> rfl
    rw [hview]
    exact bufferInv_start hfile

/-- A step that has an effect on the buffer and the log. -/
theorem RunInv.effect (h : RunInv totalSize clean d) (hbooks : Books d')
    (he : Effect (client clean) (Marked clean) (snap d) w (snap d')) :
    RunInv totalSize clean d' := by
  obtain ⟨bs, hbs⟩ := he.simulates h.buffer
  exact ⟨he.logOk h.buffer h.log, hbooks,
    run_invariant (fun _ _ _ => bufferInv_step) h.buffer hbs⟩

/-- **Step**; where `clean` is asked for, the server does not close early. -/
theorem runInv_step (h : RunInv totalSize clean d) (hclean : clean → ¬ ClosesEarly a)
    (hs : step d a = some d') : RunInv totalSize clean d' := by
  cases a with
  | worker w input =>
      have hw := worked_of_workerStep hs
      refine h.effect (h.books.worked (framed_worked hw)) (worked_effect h.buffer h.log hw ?_)
      rintro hc rfl
      exact hclean hc ⟨w, rfl⟩
  | await =>
      have ha := awaited_of_awaitStep hs
      have hbooks := h.books.awaited ha
      cases ha with
      | fine => exact ⟨h.log, hbooks, h.buffer⟩
      | failed => exact ⟨h.log, hbooks, h.buffer⟩
      | ok => exact ⟨h.log, hbooks, h.buffer⟩
      | errors => exact h.effect (w := 0) hbooks .setFailed

/-- The invariant of every run; `clean` may be that no connection is closed
    early. -/
theorem runInv_run (hfile : file.length = totalSize)
    (hclean : clean → ∀ a ∈ acts, ¬ ClosesEarly a)
    (hrun : run step (start n totalSize file) acts = some d) : RunInv totalSize clean d :=
  along_invariant (G := fun _ a => clean → ¬ ClosesEarly a)
    (fun _ _ _ hi hg hs => runInv_step hi hg hs) (runInv_start hfile)
    (along_of_mem fun a ha _ hc => hclean hc a ha) hrun

/-! ## `Ok(())` -/

/-- After `Ok(())` every worker there is has returned `Ok(())`. -/
theorem Books.workers_ok (h : Books d) (hok : d.coord = .returned (.ok ())) (w : Nat) :
    d.workers w = .ended (.ok ()) ∨ d.workers w = .unspawned := by
  by_cases hw : w < d.numConnections
  · exact Or.inl (h.ok hok w hw)
  · exact Or.inr (h.unspawned w (not_lt.mp hw))

/-- After `Ok(())` every segment is ready. -/
theorem Books.all_ready (h : Books d) (hok : d.coord = .returned (.ok ())) {id : Nat}
    {seg : Segment} (hseg : d.buf.segments[id]? = some seg) : seg.state = .ready := by
  rcases h.segs id seg hseg with hr | ⟨w, ha⟩
  · exact hr
  · rcases h.workers_ok hok w with hw | hw
    · rw [hw] at ha
      rcases ha with ⟨a, z, hc⟩ | ⟨e, he⟩ | ⟨l, hl⟩
      · cases hc
      · cases he
      · cases hl
    · rw [hw] at ha
      rcases ha with ⟨a, z, hc⟩ | ⟨e, he⟩ | ⟨l, hl⟩
      · cases hc
      · cases he
      · cases hl

/-- After `Ok(())` no claim is pending. -/
theorem Books.noClaimPending (h : Books d) (hok : d.coord = .returned (.ok ())) :
    NoClaimPending (view clean d) := by
  intro w a z hc
  have hc : (d.workers w).call = .claimed a z := hc
  rcases h.workers_ok hok w with hw | hw
  · rw [hw] at hc
    cases hc
  · rw [hw] at hc
    cases hc

/-- What the caller takes `Ok(())` to mean: every offset holds a byte received
    for its segment, and no segment was marked ready before all of its bytes
    had been received. -/
structure Sound (totalSize : Nat) (d : Download) : Prop where
  received : ∀ off, off < totalSize → ∃ (id : Nat) (seg : Segment) (t : Transfer DataConnection)
    (m : Nat), d.buf.segments[id]? = some seg ∧ seg.start ≤ off ∧ off < seg.end ∧
      lastTransfer id d.log = some t ∧ t.data = t.body ∧ Chain seg.start t.ranges m ∧ off < m
  ready : ∀ (id : Nat) (seg : Segment), d.buf.segments[id]? = some seg → seg.state = .ready →
    Delivered Whole d.log id seg

/-- If no connection was closed early, `Ok(())` is what it is taken for. -/
theorem RunInv.sound (h : RunInv totalSize True d) (hok : d.coord = .returned (.ok ()))
    (hn : 0 < d.numConnections ∨ totalSize = 0) : Sound totalSize d := by
  have hready : ∀ (id : Nat) (seg : Segment), d.buf.segments[id]? = some seg →
      seg.state = .ready → Delivered Whole d.log id seg := by
    intro id seg hseg hr
    exact (h.log.ready id seg hseg hr).imp fun t ht => ht.whole trivial
  refine ⟨?_, hready⟩
  intro off hoff
  have hsize : d.buf.totalSize = totalSize := h.buffer.size
  have hpos : 0 < d.numConnections := by omega
  have hnext := h.books.exhausted 0 (Or.inr (h.books.ok hok 0 hpos))
  obtain ⟨id, seg, hseg, hlo, hhi⟩ := BlitzCompletion.ClaimInv.covers h.buffer.claims hnext
    (h.books.noClaimPending hok) (hsize.symm ▸ hoff)
  obtain ⟨t, ht, hwhole⟩ := (hready id seg hseg (h.books.all_ready hok hseg)).lastTransfer
  exact ⟨id, seg, t, seg.end, hseg, hlo, hhi, ht, hwhole.received, hwhole.in_order, hhi⟩

/-! ## Closed early -/

/-- The segment for which a worker has a data connection, or is about to
    open one. -/
def Pc.receiving : Pc → Option Nat
  | .pasv c => some c.id
  | .rest c _ => some c.id
  | .retr c _ => some c.id
  | .connect c _ => some c.id
  | .reply150 c => some c.id
  | .read c _ => some c.id
  | .write c _ _ => some c.id
  | _ => none

/-- A worker that receives a segment is at work on it. -/
theorem doing_of_receiving {pc : Pc} {id : Nat} (h : Pc.receiving pc = some id) :
    ∃ x, Pc.doing clean pc = some x ∧ x.id = id := by
  cases pc with
  | pasv c => cases h; exact ⟨_, rfl, rfl⟩
  | rest c _ => cases h; exact ⟨_, rfl, rfl⟩
  | retr c _ => cases h; exact ⟨_, rfl, rfl⟩
  | connect c _ => cases h; exact ⟨_, rfl, rfl⟩
  | reply150 c => cases h; exact ⟨_, rfl, rfl⟩
  | read c _ => cases h; exact ⟨_, rfl, rfl⟩
  | write c _ _ => cases h; exact ⟨_, rfl, rfl⟩
  | _ => cases h

/-- Segment `id` has got fewer bytes than it has, and will get no more. -/
def CutShort (d : Download) (id : Nat) : Prop :=
  (∃ t r, lastTransfer id d.log = some t ∧ d.buf.ranges[id]? = some r ∧
    t.body.length < r.2 - r.1) ∧ ∀ w, Pc.receiving (d.workers w) ≠ some id

/-- A transfer that was cut short stays so, whatever another worker does. -/
theorem cutShort_put {pc : Pc} {id : Nat} (h : CutShort d id)
    (hworkers : d'.workers = Function.update d.workers w pc)
    (hranges : ∀ r, d.buf.ranges[id]? = some r → d'.buf.ranges[id]? = some r)
    (hlog : lastTransfer id d'.log = lastTransfer id d.log)
    (hpc : Pc.receiving pc = some id → Pc.receiving (d.workers w) = some id) :
    CutShort d' id := by
  obtain ⟨⟨t, r, ht, hr, hlt⟩, hno⟩ := h
  refine ⟨⟨t, r, hlog.trans ht, hranges r hr, hlt⟩, ?_⟩
  intro v
  rw [hworkers]
  by_cases hvw : v = w
  · subst hvw
    rw [Function.update_self]
    exact fun hv => hno v (hpc hv)
  · rw [Function.update_of_ne hvw]
    exact hno v

theorem receiving_moves {pc pc' : Pc} {id : Nat} (h : Moves pc pc')
    (hpc : Pc.receiving pc' = some id) : Pc.receiving pc = some id := by
  cases h <;> first | exact hpc | cases hpc

/-- A segment that was cut short stays so: only the worker that receives for
    it could add to it. -/
theorem cutShort_worked {id : Nat} (h : CutShort d id) (hw : Worked d w input d') :
    CutShort d' id := by
  -- an event of the worker that is receiving is about another segment
  have hother : ∀ {pc id'} (what : What DataConnection), d.workers w = pc →
      Pc.receiving pc = some id' →
      lastTransfer id (d.log ++ [⟨w, id', what⟩]) = lastTransfer id d.log := by
    intro pc id' what hpc hrec
    refine lastTransfer_of_ne ?_
    rintro rfl
    exact h.2 w (hpc ▸ hrec)
  have hstop : ∀ {pc}, Pc.receiving pc = none → Pc.receiving pc = some id →
      Pc.receiving (d.workers w) = some id := fun hnone hsome => nomatch hnone.symm.trans hsome
  cases hw with
  | moved hm => exact cutShort_put h rfl (fun _ hr => hr) rfl (receiving_moves hm)
  | failed => exact cutShort_put h rfl (fun _ hr => hr) rfl (hstop rfl)
  | exhausted _ hcas =>
      rcases claimCas_none hcas with rfl | ⟨rfl, -⟩
      · exact cutShort_put h rfl (fun _ hr => hr) rfl (hstop rfl)
      · exact cutShort_put h rfl (fun _ hr => hr) rfl (hstop rfl)
  | cas _ hcas =>
      obtain ⟨rfl, -⟩ := claimCas_some hcas
      exact cutShort_put h rfl (fun _ hr => hr) rfl (hstop rfl)
  | push hpush =>
      obtain ⟨t, r, -, hr, -⟩ := h.1
      have hlt : id < d.buf.segments.length := by
        have := (List.getElem?_eq_some_iff.mp hr).1
        rwa [length_ranges] at this
      refine cutShort_put h rfl ?_ (lastTransfer_of_ne (Nat.ne_of_gt hlt)) ?_
      · intro r hr
        show (d.buf.claimPush _).1.ranges[id]? = some r
        rw [ranges_claimPush, List.getElem?_append_left (by rwa [length_ranges])]
        exact hr
      · intro hid
        cases hid
        exact absurd hlt (Nat.lt_irrefl _)
  | opened hc => exact cutShort_put h rfl (fun _ hr => hr) (hother _ hc rfl) fun hid => hc ▸ hid
  | received hc => exact cutShort_put h rfl (fun _ hr => hr) (hother _ hc rfl) fun hid => hc ▸ hid
  | closedEarly => exact cutShort_put h rfl (fun _ hr => hr) rfl (hstop rfl)
  | wrote hc hwrite =>
      obtain ⟨file, rfl⟩ := writeData_file hwrite
      refine cutShort_put h rfl (fun _ hr => hr) (hother _ hc rfl) ?_
      rw [readLoop]
      split
      · exact fun hid => hc ▸ hid
      · exact hstop rfl
  | wroteSome _ hwrite =>
      obtain ⟨file, rfl⟩ := writeData_file hwrite
      exact cutShort_put h rfl (fun _ hr => hr) rfl (hstop rfl)
  | @ready _ c hc =>
      refine cutShort_put h rfl ?_ ?_ (hstop rfl)
      · intro r hr
        show (d.buf.setReady c.id).ranges[id]? = some r
        rwa [ranges_setReady]
      · by_cases hid : c.id = id
        · subst hid
          obtain ⟨t, r, ht, -⟩ := h.1
          show lastTransfer c.id (d.log ++ [⟨w, c.id, .ready⟩]) = lastTransfer c.id d.log
          rw [lastTransfer_self, ht]
          rfl
        · exact lastTransfer_of_ne hid
  | unlisted => exact cutShort_put h rfl (fun _ hr => hr) rfl (hstop rfl)
  | counted => exact cutShort_put h rfl (fun _ hr => hr) rfl (hstop rfl)
  | finished => exact cutShort_put h rfl (fun _ hr => hr) rfl (hstop rfl)
  | panicked => exact cutShort_put h rfl (fun _ hr => hr) rfl (hstop rfl)

/-- **Step**: a transfer that was cut short stays so. -/
theorem cutShort_step {id : Nat} (h : CutShort d id) (hs : step d a = some d') :
    CutShort d' id := by
  cases a with
  | worker w input => exact cutShort_worked h (worked_of_workerStep hs)
  | await =>
      have ha := awaited_of_awaitStep hs
      cases ha <;> exact h

/-- The end of the data connection, however early. -/
theorem read_of_eof (hs : workerStep d w (.read (.ok [])) = some d') :
    ∃ c k, d.workers w = .read c k ∧ d' = d.goto w (.reply226 c) := by
  cases hpc : d.workers w with
  | read c k =>
      simp only [workerStep, hpc, readStep] at hs
      split at hs
      next hlt => exact absurd hlt (Nat.not_lt_zero _)
      next => cases hs; exact ⟨c, k, rfl, rfl⟩
  | _ => simp only [workerStep, hpc] at hs; cases hs

/-- A connection that is closed early cuts its segment short. -/
theorem cutShort_of_closesEarly (h : RunInv totalSize clean d) (ha : ClosesEarly a)
    (hs : step d a = some d') : ∃ id, CutShort d' id := by
  obtain ⟨w, rfl⟩ := ha
  obtain ⟨c, k, hw, rfl⟩ := read_of_eof hs
  refine ⟨c.id, ?_, ?_⟩
  · obtain ⟨-, -, hlt, t, ht, hf⟩ := h.log.working w _ (doing_of hw)
    have hseg : d.buf.segments[c.id]? = some ⟨c.start, c.end, .downloading⟩ :=
      seg_of_doing h.buffer (doing_of hw)
    refine ⟨t, (c.start, c.end), ht, ?_, ?_⟩
    · show d.buf.ranges[c.id]? = some (c.start, c.end)
      rw [getElem?_ranges, hseg]
      rfl
    · have hlen := length_data hf.in_order
      rw [hf.body, List.append_nil]
      show t.data.length < c.end - c.start
      omega
  · -- nobody else receives for the segment
    intro v hv
    by_cases hvw : v = w
    · subst hvw
      have hself : (d.goto v (.reply226 c)).workers v = .reply226 c := Function.update_self ..
      rw [hself] at hv
      exact nomatch hv
    · have hv : Pc.receiving (Function.update d.workers w _ v) = some c.id := hv
      rw [Function.update_of_ne hvw] at hv
      obtain ⟨x, hx, hid⟩ := @doing_of_receiving clean _ _ hv
      exact ids_of_doing h.buffer (doing_of hw) v x hvw hx hid

/-- A download with a transfer cut short is not sound. -/
theorem CutShort.not_sound {id : Nat} (h : CutShort d id) (hinv : RunInv totalSize clean d)
    (hok : d.coord = .returned (.ok ())) : ¬ Sound totalSize d := by
  intro hsound
  obtain ⟨⟨t, r, ht, hr, hlt⟩, -⟩ := h
  rw [getElem?_ranges] at hr
  obtain ⟨seg, hseg, rfl⟩ := Option.map_eq_some_iff.mp hr
  obtain ⟨t', ht', hwhole⟩ :=
    (hsound.ready id seg hseg (hinv.books.all_ready hok hseg)).lastTransfer
  rw [ht] at ht'
  cases ht'
  have hlen := length_data hwhole.in_order
  rw [hwhole.received] at hlen
  have hlt : t.body.length < seg.end - seg.start := hlt
  omega

/-- The number of connections does not change. -/
theorem connections_run (hrun : run step (start n totalSize file) acts = some d) :
    d.numConnections = n := by
  refine run_invariant (I := fun d => d.numConnections = n) ?_ rfl hrun
  intro s a s' h hs
  cases a with
  | worker w input => exact (framed_worked (worked_of_workerStep hs)).connections.trans h
  | await =>
      have ha := awaited_of_awaitStep hs
      cases ha <;> exact h

/-- **`Ok(())`, exactly**: it is what its caller takes it for if and only if
    no data connection was closed before its segment was complete, and there
    were workers, or nothing to download. -/
theorem ftp_ok_sound_iff (hfile : file.length = totalSize)
    (hrun : run step (start n totalSize file) acts = some d)
    (hok : d.coord = .returned (.ok ())) :
    Sound totalSize d ↔ (∀ a ∈ acts, ¬ ClosesEarly a) ∧ (0 < n ∨ totalSize = 0) := by
  have hconn : d.numConnections = n := connections_run hrun
  constructor
  · intro hsound
    have hfinal : RunInv totalSize False d := runInv_run hfile nofun hrun
    constructor
    · intro a ha hclosed
      -- the run up to the early end, that step, and the rest
      obtain ⟨before, after, rfl⟩ := List.append_of_mem ha
      obtain ⟨s, hs, hrest⟩ := run_append_some hrun
      obtain ⟨s', hstep, hafter⟩ := run_cons_some hrest
      have hinv : RunInv totalSize False s := runInv_run hfile nofun hs
      obtain ⟨id, hcut⟩ := cutShort_of_closesEarly hinv hclosed hstep
      have hcut : CutShort d id :=
        run_invariant (I := fun d => CutShort d id) (fun _ _ _ => cutShort_step) hcut hafter
      exact hcut.not_sound hfinal hok hsound
    · by_contra hnone
      obtain ⟨id, seg, t, m, hseg, -⟩ := hsound.received 0 (by omega)
      rw [hfinal.books.nobody (by omega)] at hseg
      exact nomatch hseg
  · rintro ⟨hclean, hn⟩
    have hinv : RunInv totalSize True d := runInv_run hfile (fun _ => hclean) hrun
    exact hinv.sound hok (by omega)

/-- `227 Entering Passive Mode (127,0,0,1,4,1)`, in short. -/
def pasvReply : RustText.Text :=
  ['2', '2', '7', ' ', '(', '1', '2', '7', ',', '0', ',', '0', ',', '1', ',', '4', ',', '1', ')']

/-- One worker up to its first read of the data connection. -/
def untilFirstRead : List Act :=
  [.worker 0 .go, .worker 0 (.sent (.ok ())), .worker 0 .go, .worker 0 .go, .worker 0 .go,
    .worker 0 (.reply (.ok pasvReply)), .worker 0 (.sent (.ok ())), .worker 0 (.sent (.ok ())),
    .worker 0 (.reply (.ok []))]

/-- From the 226 to the end of the download. -/
def untilReturned : List Act :=
  [.worker 0 (.reply (.ok [])), .worker 0 .go, .worker 0 .go, .worker 0 (.measured none),
    .worker 0 .go, .worker 0 .go, .worker 0 (.reply (.ok [])), .await, .await]

/-- A one-byte file. -/
def oneByte : List Act :=
  untilFirstRead ++ [.worker 0 (.read (.ok [7])), .worker 0 (.write true [.ok 1])] ++ untilReturned

theorem ftp_ok_sound_oneByte :
    ∃ d, run step (start 1 1 [0]) oneByte = some d ∧
      (Sound 1 d ↔ (∀ a ∈ oneByte, ¬ ClosesEarly a) ∧ (0 < 1 ∨ 1 = 0)) := by
  have hany : (run step (start 1 1 [0]) oneByte).any (fun d =>
      decide (d.coord = .returned (.ok ()))) = true := by decide
  obtain ⟨d, hrun, hd⟩ := run_of_any hany
  exact ⟨d, hrun, ftp_ok_sound_iff rfl hrun (of_decide_eq_true hd)⟩

/-- The data connection for a one-byte file ends before the byte has come. -/
def closedEarly : List Act :=
  untilFirstRead ++ .worker 0 (.read (.ok [])) :: untilReturned

/-- Nothing was written, the segment is ready, and the download returns
    `Ok(())`. -/
theorem ftp_ok_closed_early :
    ∃ d, run step (start 1 1 [0]) closedEarly = some d ∧ d.coord = .returned (.ok ()) ∧
      d.buf.segments = [⟨0, 1, .ready⟩] ∧
      (lastTransfer 0 d.log).map Transfer.writes = some [] ∧ ¬ Sound 1 d := by
  have hany : (run step (start 1 1 [0]) closedEarly).any (fun d =>
      decide (d.coord = .returned (.ok ()) ∧ d.buf.segments = [⟨0, 1, .ready⟩] ∧
        (lastTransfer 0 d.log).map Transfer.writes = some [])) = true := by decide
  obtain ⟨d, hrun, hd⟩ := run_of_any hany
  obtain ⟨hok, hsegs, hwrites⟩ := of_decide_eq_true hd
  refine ⟨d, hrun, hok, hsegs, hwrites, ?_⟩
  intro hsound
  obtain ⟨id, seg, t, m, hseg, -, -, ht, -, hchain, hm⟩ := hsound.received 0 Nat.zero_lt_one
  rw [hsegs] at hseg
  cases id with
  | zero =>
      cases hseg
      rw [ht] at hwrites
      have hnone : t.writes = [] := Option.some.inj hwrites
      have hranges : t.ranges = [] := by
        show t.writes.map _ = []
        rw [hnone]
        rfl
      rw [hranges] at hchain
      have : 0 = m := hchain
      omega
  | succ id => exact nomatch hseg

end BlitzFtpResults
