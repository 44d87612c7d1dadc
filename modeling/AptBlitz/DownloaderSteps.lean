import AptBlitz.Downloader

/-! # The steps of the HTTP downloader

    `Worked` lists everything a step of a worker can be, and `Stepped`
    everything a step of the download can be; the invariants are proved over
    these. -/

namespace BlitzDownloader

open BlitzClaims (Call)

/-- What a worker holds of the buffer. -/
def Pc.call : Pc → Call
  | .push _ a z => .claimed a z
  | .attempt c => .holds c.id c.start c.end
  | .send c => .holds c.id c.start c.end
  | .body c _ => .holds c.id c.start c.end
  | .chunk c _ _ => .holds c.id c.start c.end
  | .markState c => .holds c.id c.start c.end
  | .markCount c => .marking c.id
  | .panicked (some (a, z)) => .claimed a z
  | _ => .idle

/-- The worker's task runs, up to its `active.fetch_sub(1)`. -/
def Pc.alive : Pc → Bool
  | .unspawned => false
  | .ended _ => false
  | .panicked _ => false
  | _ => true

end BlitzDownloader

namespace BlitzDownloaderSteps

open BlitzBuffer SegmentsBuffer BlitzTransfers BlitzDownloader Download Runs
open BlitzClaims (Call)

/-! ## Everything a step of a worker can be -/

/-- The steps that touch nothing shared and keep the worker's segment. -/
inductive Moves : Pc → Pc → Prop
  | permit : Moves .permit (.top initialSegmentSize)
  | claim {p} : Moves (.top p) (.claim p)
  | send {c} : Moves (.attempt c) (.send c)
  | resend {c err} : Moves (.send c) (.attempt (c.retry err))
  | restart {c fo err} : Moves (.body c fo) (.attempt (c.retry err))
  | restartChunk {c fo rest err} : Moves (.chunk c fo rest) (.attempt (c.retry err))
  | more {c fo} (h : fo < c.end) : Moves (.chunk c fo []) (.body c fo)
  | bodyDone {c fo} (h : fo - c.start = c.end - c.start) : Moves (.body c fo) (.markState c)
  | chunkDone {c fo rest} (h : fo - c.start = c.end - c.start) (hge : c.end ≤ fo) :
      Moves (.chunk c fo rest) (.markState c)
  | again {c p} : Moves (.measure c) (.top p)

/-- What a step of worker `w` can do to the download. -/
inductive Worked (d : Download) (w : Nat) : Download → Prop
  | moved {pc} (h : Moves (d.workers w) pc) : Worked d w (d.goto w pc)
  | failed {e} (h : (d.workers w).alive = true)
      (hc : (d.workers w).call.claim = none) : Worked d w (finish d w (.error e))
  | exhausted {p b} (hw : d.workers w = .claim p) (h : d.buf.claimCas p = (b, none)) :
      Worked d w (finish { d with buf := b } w (.ok ()))
  | cas {p b r} (hw : d.workers w = .claim p) (h : d.buf.claimCas p = (b, some r)) :
      Worked d w ({ d with buf := b }.goto w (.push p r.1 r.2))
  | push {p a z} (hw : d.workers w = .push p a z) :
      Worked d w ((({ d with buf := (d.buf.claimPush (a, z)).1 } : Download).goto w
        (.attempt ⟨p, d.buf.segments.length, a, z, 0, none⟩)).note w
          d.buf.segments.length (.claimed a z))
  | opened {c r} (hw : d.workers w = .send c)
      (hok : checkStatus d.buf.totalSize c.start c.end r.status = none) :
      Worked d w ((d.goto w (.body c c.start)).note w c.id (.opened r))
  | received {c fo data} (hw : d.workers w = .body c fo) :
      Worked d w ((d.goto w (.chunk c fo data)).note w c.id (.received data))
  | wrote {c fo rest n b results} (hw : d.workers w = .chunk c fo rest)
      (hn : n = min rest.length (c.end - fo))
      (h : d.buf.writeData fo (rest.take n) results = some (.ok (), b)) :
      Worked d w ((({ d with buf := b } : Download).goto w
        (.chunk c (fo + n) (rest.drop n))).note w c.id (.wrote fo (rest.take n)))
  | wroteSome {c fo rest n b results e} (hw : d.workers w = .chunk c fo rest)
      (hn : n = min rest.length (c.end - fo))
      (h : d.buf.writeData fo (rest.take n) results = some (.error e, b)) :
      Worked d w (finish { d with buf := b } w (.error (.io e)))
  | ready {c} (hw : d.workers w = .markState c) :
      Worked d w ((({ d with buf := d.buf.setReady c.id } : Download).goto w
        (.markCount c)).note w c.id .ready)
  | unlisted {c} (hw : d.workers w = .markState c) (h : d.buf.segments.length ≤ c.id) :
      Worked d w (d.goto w (.notify c))
  | counted {c} (hw : d.workers w = .markCount c) :
      Worked d w ({ d with buf := d.buf.addReady }.goto w (.notify c))
  | notified {c} (hw : d.workers w = .notify c) :
      Worked d w ({ d with readyMsgs := d.readyMsgs + 1 }.goto w (.measure c))
  | finished {r} (hw : d.workers w = .finish r) :
      Worked d w ({ d with active := d.active - 1 }.goto w (.ended r))
  | panicked {p} (h : (d.workers w).alive = true) (hp : d.poisoned = true → p = true)
      (hlost : (d.workers w).call.claim ≠ none → p = true) :
      Worked d w ({ d with poisoned := p }.goto w
        (.panicked (d.workers w).call.claim))

variable {d d' : Download} {w : Nat} {pc pc' : Pc}

/-- An error that ends the worker outside of `claim_range`. -/
theorem Worked.failed_of {e : DownloadError} (hw : d.workers w = pc)
    (h : pc.alive = true) (hc : pc.call.claim = none) :
    Worked d w (finish d w (.error e)) :=
  .failed (hw ▸ h) (hw ▸ hc)

theorem Worked.moved_of (hw : d.workers w = pc) (h : Moves pc pc') :
    Worked d w (d.goto w pc') :=
  .moved (hw ▸ h)

/-- The end of a body: the segment is complete, or it is tried again, or the
    worker gives up. -/
theorem worked_bodyOver {c : Claim} {fo : Nat} (hw : d.workers w = pc)
    (hpc : pc = .body c fo ∨ ∃ rest, pc = .chunk c fo rest ∧ c.end ≤ fo) :
    Worked d w (d.goto w (bodyOver c fo)) := by
  rw [bodyOver]
  by_cases hsize : fo - c.start ≠ c.end - c.start
  · simp only [if_pos hsize]
    split
    · rcases hpc with rfl | ⟨rest, rfl, -⟩
      · exact .moved_of hw .restart
      · exact .moved_of hw .restartChunk
    · rcases hpc with rfl | ⟨rest, rfl, -⟩
      · exact .failed_of hw rfl rfl
      · exact .failed_of hw rfl rfl
  · simp only [if_neg hsize]
    have hsize := not_not.mp hsize
    rcases hpc with rfl | ⟨rest, rfl, hge⟩
    · exact .moved_of hw (.bodyDone hsize)
    · exact .moved_of hw (.chunkDone hsize hge)

/-- A piece of the body, or its end. -/
theorem worked_streamStep {c : Claim} {fo : Nat} (hw : d.workers w = .body c fo)
    (event : BodyEvent) : Worked d w (streamStep d w c fo event) := by
  cases event with
  | eof => exact worked_bodyOver hw (Or.inl rfl)
  | error e =>
      unfold streamStep
      dsimp only
      split
      · exact .moved_of hw .restart
      · exact .failed_of hw rfl rfl
  | chunk data =>
      unfold streamStep
      dsimp only
      split
      · exact .failed_of hw rfl rfl
      · exact .received hw
  | elapsed =>
      unfold streamStep
      dsimp only
      split
      · exact .moved_of hw .restart
      · exact .failed_of hw rfl rfl

/-- A turn of the loop that writes. -/
theorem worked_writeStep {c : Claim} {fo : Nat} {rest : Bytes} {consumed : Bool}
    {results : List (Except IoError Nat)} (hw : d.workers w = .chunk c fo rest)
    (h : writeStep d w c fo rest consumed results = some d') : Worked d w d' := by
  unfold writeStep at h
  dsimp only at h
  split at h
  · split at h
    next => exact nomatch h
    next e b hwrite => cases h; exact .wroteSome hw rfl hwrite
    next u b hwrite => cases h; exact .wrote hw rfl hwrite
  · split at h
    · cases h; exact .failed_of hw rfl rfl
    · exact nomatch h

/-- A panic, wherever the worker is. -/
theorem worked_panicStep {inLock : Bool} (h : panicStep d w inLock = some d') :
    Worked d w d' := by
  have hquiet : ∀ {pc}, d.workers w = pc → pc.alive = true →
      pc.call.claim = none → ∀ p, (d.poisoned = true → p = true) →
      Worked d w ({ d with poisoned := p }.goto w (.panicked none)) := by
    intro pc hpc halive hcl p hp
    have := Worked.panicked (d := d) (w := w) (p := p) (hpc ▸ halive) hp
      (fun hne => absurd (hpc ▸ hcl) hne)
    rw [hpc, hcl] at this
    exact this
  rw [panicStep] at h
  cases hpc : d.workers w with
  | unspawned => rw [hpc] at h; exact nomatch h
  | finish r => rw [hpc] at h; exact nomatch h
  | ended r => rw [hpc] at h; exact nomatch h
  | panicked l => rw [hpc] at h; exact nomatch h
  -- under the lock the panic poisons it; the range stays with the worker
  | push p a z =>
      rw [hpc] at h
      cases h
      have := Worked.panicked (d := d) (w := w) (p := true) (by rw [hpc]; rfl)
        (fun _ => rfl) (fun _ => rfl)
      rw [hpc] at this
      exact this
  | markState c =>
      rw [hpc] at h
      cases h
      exact hquiet hpc rfl rfl _ (fun hp => by rw [hp]; rfl)
  -- outside the lock
  | permit => rw [hpc] at h; cases h; exact hquiet hpc rfl rfl _ id
  | top p => rw [hpc] at h; cases h; exact hquiet hpc rfl rfl _ id
  | claim p => rw [hpc] at h; cases h; exact hquiet hpc rfl rfl _ id
  | attempt c => rw [hpc] at h; cases h; exact hquiet hpc rfl rfl _ id
  | send c => rw [hpc] at h; cases h; exact hquiet hpc rfl rfl _ id
  | body c fo => rw [hpc] at h; cases h; exact hquiet hpc rfl rfl _ id
  | chunk c fo rest => rw [hpc] at h; cases h; exact hquiet hpc rfl rfl _ id
  | markCount c => rw [hpc] at h; cases h; exact hquiet hpc rfl rfl _ id
  | notify c => rw [hpc] at h; cases h; exact hquiet hpc rfl rfl _ id
  | measure c => rw [hpc] at h; cases h; exact hquiet hpc rfl rfl _ id

/-- **What a worker does**: `workerStep` does nothing but this. -/
theorem worked_of_workerStep {input : Input} (h : workerStep d w input = some d') :
    Worked d w d' := by
  simp only [workerStep] at h
  split at h
  next => exact worked_panicStep h
  next hw => cases h; exact .moved_of hw .permit
  next p hw =>
    split at h
    · cases h; exact .failed_of hw rfl rfl
    · cases h; exact .moved_of hw .claim
  next p hw =>
    split at h
    next b hc => cases h; exact .exhausted hw hc
    next b r hc => cases h; exact .cas hw hc
  next p a z hw =>
    split at h
    · exact nomatch h
    · cases h; exact .push hw
  next c hw =>
    split at h
    · cases h; exact .failed_of hw rfl rfl
    · split at h
      · cases h; exact .failed_of hw rfl rfl
      · cases h; exact .moved_of hw .send
  next c e hw =>
    split at h
    · cases h; exact .moved_of hw .resend
    · cases h; exact .failed_of hw rfl rfl
  next c r hw =>
    split at h
    next => cases h; exact .failed_of hw rfl rfl
    next hok => cases h; exact .opened hw hok
  next c fo event hw => cases h; exact worked_streamStep hw event
  next c fo rest hw =>
    split at h
    next hover =>
      split at h
      next hge => cases h; exact worked_bodyOver hw (Or.inr ⟨rest, rfl, hge⟩)
      next hlt =>
        cases h
        -- `chunk` is left when its data are used up or its claim is full
        rcases hover with rfl | hend
        · exact .moved_of hw (.more (not_le.mp hlt))
        · omega
    next => exact nomatch h
  next c fo rest consumed results hw =>
    split at h
    · exact nomatch h
    · exact worked_writeStep hw h
  next c hw =>
    split at h
    · exact nomatch h
    · split at h
      next => cases h; exact .ready hw
      next hlen => cases h; exact .unlisted hw (not_lt.mp hlen)
  next c hw => cases h; exact .counted hw
  next c hw => cases h; exact .notified hw
  next c hw => cases h; exact .moved_of hw .again
  next c speed hw => cases h; exact .moved_of hw .again
  next r hw => cases h; exact .finished hw
  next => exact nomatch h

/-! ## Everything a step of the download can be -/

/-- What a step of the download can be. -/
inductive Stepped (d : Download) : Act → Download → Prop
  | worker {w input d'} (h : Worked d w d') : Stepped d (.worker w input) d'
  | spawned (hc : d.coord = .select) (hlt : d.totalSpawned < d.numConnections) :
      Stepped d .recvReady (spawnOneWorker { d with readyMsgs := d.readyMsgs - 1 })
  | recv (hc : d.coord = .select) :
      Stepped d .recvReady { d with readyMsgs := d.readyMsgs - 1 }
  | joined {w r} (hc : d.coord = .select) (hw : w < d.totalSpawned) (hj : d.joined w = false)
      (hr : (d.workers w).joinResult = some r)
      (hok : ∀ e, r = some (.error e) → e.isFatal = false) :
      Stepped d (.join w)
        { d with joined := Function.update d.joined w true, coord := .loadActive }
  | fatal {w e} (hc : d.coord = .select) (hw : w < d.totalSpawned) (hj : d.joined w = false)
      (hr : (d.workers w).joinResult = some (some (.error e))) (he : e.isFatal = true) :
      Stepped d (.join w) { d with
        joined := Function.update d.joined w true
        cancelled := true
        coord := .returned (.error e) }
  | drained {w r} (hc : d.coord = .drain) (hw : w < d.totalSpawned) (hj : d.joined w = false)
      (hr : (d.workers w).joinResult = some r) :
      Stepped d (.join w) { d with joined := Function.update d.joined w true }
  | noneLeft (hc : d.coord = .select) (hall : ∀ w, w < d.totalSpawned → d.joined w = true) :
      Stepped d .joinNone { d with coord := .drain }
  | allJoined (hc : d.coord = .drain) (hall : ∀ w, w < d.totalSpawned → d.joined w = true) :
      Stepped d .joinNone { d with coord := .check }
  | noneActive (hc : d.coord = .loadActive) (h0 : d.active = 0) :
      Stepped d .loadActive { d with coord := .drain }
  | someActive (hc : d.coord = .loadActive) (h0 : d.active ≠ 0) :
      Stepped d .loadActive { d with coord := .select }
  | checkPanicked (hc : d.coord = .check) : Stepped d .check { d with coord := .panicked }
  | completed (hc : d.coord = .check) (hp : d.poisoned = false)
      (hd : d.buf.allCompleted = true) :
      Stepped d .check { d with coord := .returned (.ok ()) }
  | incomplete (hc : d.coord = .check) (hd : d.buf.allCompleted = false) :
      Stepped d .check
        { d with cancelled := true, coord := .returned (.error .bufferFailed) }

/-- What `join_next` does with a task that is over. -/
theorem stepped_joinStep (h : joinStep d w = some d') : Stepped d (.join w) d' := by
  rw [joinStep] at h
  split at h
  next hw =>
    split at h
    next => exact nomatch h
    next r hr =>
      dsimp only at h
      split at h
      next hc =>
        split at h
        next e =>
          split at h
          next he => cases h; exact .fatal hc hw.1 hw.2 hr he
          next he =>
            cases h
            refine .joined hc hw.1 hw.2 hr ?_
            intro e' he'
            cases he'
            exact Bool.eq_false_iff.mpr he
        next hne =>
          cases h
          exact .joined hc hw.1 hw.2 hr fun e he => absurd he (hne e)
      next hc => cases h; exact .drained hc hw.1 hw.2 hr
      next => exact nomatch h
  next => exact nomatch h

/-- **What a download does**: `step` does nothing but this. -/
theorem stepped_of_step {a : Act} (h : step d a = some d') : Stepped d a d' := by
  cases a with
  | worker w input => exact .worker (worked_of_workerStep h)
  | recvReady =>
      rw [step] at h
      dsimp only at h
      split at h
      next hc =>
        split at h
        next hlt => cases h; exact .spawned hc.1 hlt
        next => cases h; exact .recv hc.1
      next => exact nomatch h
  | join w => exact stepped_joinStep h
  | joinNone =>
      unfold step at h
      dsimp only at h
      split at h
      next hall =>
        have hall : ∀ w, w < d.totalSpawned → d.joined w = true := by
          intro w hw
          exact List.all_eq_true.mp hall w (List.mem_range.mpr hw)
        split at h
        next hc => cases h; exact .noneLeft hc hall
        next hc => cases h; exact .allJoined hc hall
        next => exact nomatch h
      next => exact nomatch h
  | loadActive =>
      unfold step at h
      dsimp only at h
      split at h
      next hc =>
        split at h
        next h0 => cases h; exact .noneActive hc h0
        next h0 => cases h; exact .someActive hc h0
      next => exact nomatch h
  | check =>
      unfold step at h
      dsimp only at h
      split at h
      next hc =>
        split at h
        next => cases h; exact .checkPanicked hc
        next hpoison =>
          split at h
          next hd =>
            cases h
            refine .completed hc ?_ hd
            -- the lock is taken, and panics, only once all is assigned
            have := (allCompleted_iff.mp hd).1
            rw [this, Bool.true_and] at hpoison
            exact Bool.eq_false_iff.mpr hpoison
          next hd => cases h; exact .incomplete hc (Bool.eq_false_iff.mpr hd)
      next => exact nomatch h

end BlitzDownloaderSteps
