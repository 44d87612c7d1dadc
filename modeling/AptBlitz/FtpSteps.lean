import AptBlitz.Ftp

/-! # The steps of the FTP downloader

    `Worked` lists everything a step of a worker can be, and `Awaited`
    everything a step of the coordinator can be. -/

namespace BlitzFtp

open BlitzClaims (Call)

/-- What a worker holds of the buffer. -/
def Pc.call : Pc → Call
  | .push _ a z => .claimed a z
  | .pasv c => .holds c.id c.start c.end
  | .rest c _ => .holds c.id c.start c.end
  | .retr c _ => .holds c.id c.start c.end
  | .connect c _ => .holds c.id c.start c.end
  | .reply150 c => .holds c.id c.start c.end
  | .read c _ => .holds c.id c.start c.end
  | .write c _ _ => .holds c.id c.start c.end
  | .reply226 c => .holds c.id c.start c.end
  | .markState c => .holds c.id c.start c.end
  | .markCount c => .marking c.id
  | .panicked (some (a, z)) => .claimed a z
  | _ => .idle

end BlitzFtp

namespace BlitzFtpSteps

open BlitzBuffer SegmentsBuffer BlitzTransfers BlitzPasv BlitzFtp Download
open BlitzClaims (Call)

/-! ## Everything a step of a worker can be -/

/-- The steps that touch nothing shared and keep the worker's segment. -/
inductive Moves : Pc → Pc → Prop
  | login : Moves .permit .login
  | loggedIn : Moves .login (.top initialPreferred)
  | claim {p} : Moves (.top p) (.claim p)
  | rest {c addr} (h : 0 < c.start) : Moves (.pasv c) (.rest c addr)
  | fromStart {c conn} (h : c.start = 0) : Moves (.pasv c) (.retr c conn)
  | rested {c addr conn} : Moves (.rest c addr) (.retr c conn)
  | retr {c conn} : Moves (.retr c conn) (.connect c conn)
  | first {c} (h : 0 < c.end - c.start) : Moves (.reply150 c) (.read c 0)
  | nothing {c} (h : c.end - c.start = 0) : Moves (.reply150 c) (.reply226 c)
  | replied {c} : Moves (.reply226 c) (.markState c)
  | again {c p} : Moves (.measure c) (.top p)

/-- What a step of worker `w` can do to the download. -/
inductive Worked (d : Download) (w : Nat) : Input → Download → Prop
  | moved {input pc} (h : Moves (d.workers w) pc) : Worked d w input (d.goto w pc)
  | failed {input e} (h : (d.workers w).joinResult = none) (hs : d.workers w ≠ .unspawned)
      (hc : (d.workers w).call.claim = none) (he : e = .cancelled → d.cancelled = true) :
      Worked d w input (fail d w e)
  | exhausted {input b} {p : PreferredSize} (hw : d.workers w = .claim p)
      (h : d.buf.claimCas p = (b, none)) :
      Worked d w input ({ d with buf := b }.goto w .quit)
  | cas {input b r} {p : PreferredSize} (hw : d.workers w = .claim p)
      (h : d.buf.claimCas p = (b, some r)) :
      Worked d w input ({ d with buf := b }.goto w (.push p r.1 r.2))
  | push {input p a z} (hw : d.workers w = .push p a z) :
      Worked d w input ((({ d with buf := (d.buf.claimPush (a, z)).1 } : Download).goto w
        (.pasv ⟨p, d.buf.segments.length, a, z⟩)).note w d.buf.segments.length (.claimed a z))
  | opened {input c conn} (hw : d.workers w = .connect c conn) :
      Worked d w input ((d.goto w (.reply150 c)).note w c.id (.opened conn))
  | received {input c k data} (hw : d.workers w = .read c k)
      (hlen : data.length ≤ c.end - c.start - k) :
      Worked d w input ((d.goto w (.write c k data)).note w c.id (.received data))
  /-- the server closes the data connection before the segment is complete -/
  | closedEarly {c k} (hw : d.workers w = .read c k) :
      Worked d w (.read (.ok [])) (d.goto w (.reply226 c))
  | wrote {input c k data b results} (hw : d.workers w = .write c k data)
      (h : d.buf.writeData (c.start + k) data results = some (.ok (), b)) :
      Worked d w input ((({ d with buf := b } : Download).goto w
        (readLoop c (k + data.length))).note w c.id (.wrote (c.start + k) data))
  | wroteSome {input c k data b results e} (hw : d.workers w = .write c k data)
      (h : d.buf.writeData (c.start + k) data results = some (.error e, b)) :
      Worked d w input (fail { d with buf := b } w .bufferFailed)
  | ready {input c} (hw : d.workers w = .markState c) :
      Worked d w input ((({ d with buf := d.buf.setReady c.id } : Download).goto w
        (.markCount c)).note w c.id .ready)
  | unlisted {input c} (hw : d.workers w = .markState c) (h : d.buf.segments.length ≤ c.id) :
      Worked d w input (d.goto w (.measure c))
  | counted {input c} (hw : d.workers w = .markCount c) :
      Worked d w input ({ d with buf := d.buf.addReady }.goto w (.measure c))
  | finished {input} (hw : d.workers w = .quit) :
      Worked d w input (d.goto w (.ended (.ok ())))
  | panicked {input p} (h : (d.workers w).joinResult = none) (hs : d.workers w ≠ .unspawned) :
      Worked d w input ({ d with poisoned := p }.goto w (.panicked (d.workers w).call.claim))

variable {d d' : Download} {w : Nat} {pc pc' : Pc} {input : Input}

theorem Worked.moved_of (hw : d.workers w = pc) (h : Moves pc pc') :
    Worked d w input (d.goto w pc') :=
  .moved (hw ▸ h)

/-- An error that ends the worker outside of `claim_range`. -/
theorem Worked.failed_of {e : FtpDownloadError} (hw : d.workers w = pc)
    (h : pc.joinResult = none) (hs : pc ≠ .unspawned) (hc : pc.call.claim = none)
    (he : e = .cancelled → d.cancelled = true) : Worked d w input (fail d w e) :=
  .failed (hw ▸ h) (hw ▸ hs) (hw ▸ hc) he

/-- The address of the data connection is there. -/
theorem worked_startRange {c : Claim} {addr : RustText.Text × Nat}
    (hw : d.workers w = .pasv c) : Worked d w input (d.goto w (startRange c addr)) := by
  simp only [startRange]
  split
  next h => exact .moved_of hw (.rest h)
  next h => exact .moved_of hw (.fromStart (Nat.eq_zero_of_not_pos h))

/-- The server has said that it is sending. -/
theorem worked_reply150 {c : Claim} (hw : d.workers w = .reply150 c) :
    Worked d w input (d.goto w (readLoop c 0)) := by
  rw [readLoop]
  split
  next h => exact .moved_of hw (.first h)
  next h => exact .moved_of hw (.nothing (Nat.eq_zero_of_not_pos h))

/-- A piece from the data connection, or its end. -/
theorem worked_readStep {c : Claim} {k : Nat} {result : Except IoError Bytes}
    (hw : d.workers w = .read c k) (h : readStep d w c k result = some d') :
    Worked d w (.read result) d' := by
  cases result with
  | error e => cases h; exact .failed_of hw rfl nofun rfl nofun
  | ok data =>
      simp only [readStep] at h
      split at h
      next => exact nomatch h
      next hmany =>
        split at h
        next hnone =>
          cases h
          rw [List.eq_nil_of_length_eq_zero hnone]
          exact .closedEarly hw
        next => cases h; exact .received hw (by omega)

/-- The write of a piece. -/
theorem worked_writeStep {c : Claim} {k : Nat} {data : Bytes}
    {results : List (Except IoError Nat)} (hw : d.workers w = .write c k data)
    (h : writeStep d w c k data results = some d') : Worked d w input d' := by
  rw [writeStep] at h
  split at h
  next => exact nomatch h
  next e b hwrite => cases h; exact .wroteSome hw hwrite
  next u b hwrite => cases h; exact .wrote hw hwrite

/-- A panic, wherever the worker is. -/
theorem worked_panicStep {inLock : Bool} (h : panicStep d w inLock = some d') :
    Worked d w input d' := by
  have hquiet : ∀ {pc}, d.workers w = pc → pc.joinResult = none → pc ≠ .unspawned →
      ∀ {lost}, pc.call.claim = lost → ∀ p,
      Worked d w input ({ d with poisoned := p }.goto w (.panicked lost)) := by
    intro pc hpc hj hs lost hcl p
    have := @Worked.panicked d w input p (hpc ▸ hj) (hpc ▸ hs)
    rw [hpc, hcl] at this
    exact this
  rw [panicStep] at h
  cases hpc : d.workers w with
  | unspawned => rw [hpc] at h; exact nomatch h
  | ended r => rw [hpc] at h; exact nomatch h
  | panicked l => rw [hpc] at h; exact nomatch h
  | _ => rw [hpc] at h; cases h; exact hquiet hpc rfl nofun rfl _

/-- **What a worker does**: `workerStep` does nothing but this. -/
theorem worked_of_workerStep (h : workerStep d w input = some d') : Worked d w input d' := by
  simp only [workerStep] at h
  split at h
  next => exact worked_panicStep h
  next hw => cases h; exact .moved_of hw .login
  next hw => cases h; exact .failed_of hw rfl nofun rfl nofun
  next hw => cases h; exact .moved_of hw .loggedIn
  next p hw =>
    split at h
    next hc => cases h; exact .failed_of hw rfl nofun rfl fun _ => hc
    next => cases h; exact .moved_of hw .claim
  next p hw =>
    split at h
    next b hc => cases h; exact .exhausted hw hc
    next b r hc => cases h; exact .cas hw hc
  next p a z hw =>
    split at h
    · exact nomatch h
    · cases h; exact .push hw
  next hw => cases h; exact .failed_of hw rfl nofun rfl nofun
  next c resp hw =>
    split at h
    next => cases h; exact .failed_of hw rfl nofun rfl nofun
    next => cases h; exact worked_startRange hw
  next hw => cases h; exact .failed_of hw rfl nofun rfl nofun
  next hw => cases h; exact .moved_of hw .rested
  next hw => cases h; exact .failed_of hw rfl nofun rfl nofun
  next hw => cases h; exact .moved_of hw .retr
  next hw => cases h; exact .failed_of hw rfl nofun rfl nofun
  next hw => cases h; exact .opened hw
  next hw => cases h; exact .failed_of hw rfl nofun rfl nofun
  next hw => cases h; exact worked_reply150 hw
  next hw => exact worked_readStep hw h
  next hw => exact worked_writeStep hw h
  next hw => cases h; exact .moved_of hw .replied
  next c hw =>
    split at h
    · exact nomatch h
    · split at h
      next => cases h; exact .ready hw
      next hlen => cases h; exact .unlisted hw (not_lt.mp hlen)
  next hw => cases h; exact .counted hw
  next hw => cases h; exact .moved_of hw .again
  next hw => cases h; exact .moved_of hw .again
  next hw => cases h; exact .finished hw
  next => exact nomatch h

/-! ## Everything a step of the coordinator can be -/

/-- What the coordinator can make of the next worker's result. -/
inductive Awaited (d : Download) : Download → Prop
  /-- the next worker returned, with nothing to keep -/
  | fine {i errors r} (hc : d.coord = .awaiting i errors)
      (hr : (d.workers i).joinResult = some (some r))
      (hok : r = .ok () ∨ r = .error .cancelled) :
      Awaited d { d with coord := .awaiting (i + 1) errors }
  /-- the next worker failed -/
  | failed {i errors r e} (hc : d.coord = .awaiting i errors)
      (hr : (d.workers i).joinResult = some r) :
      Awaited d { d with cancelled := true, coord := .awaiting (i + 1) (errors ++ [e]) }
  | ok {i} (hc : d.coord = .awaiting i []) (hi : d.numConnections ≤ i) :
      Awaited d { d with coord := .returned (.ok ()) }
  | errors {i errors} (hc : d.coord = .awaiting i errors) :
      Awaited d { d with buf := d.buf.setFailed, coord := .returned (.error .bufferFailed) }

/-- `awaitStep` does nothing but this. -/
theorem awaited_of_awaitStep (h : awaitStep d = some d') : Awaited d d' := by
  rw [awaitStep] at h
  split at h
  next => exact nomatch h
  next i errors hc =>
    split at h
    next hi =>
      split at h
      next => exact nomatch h
      next hr => cases h; exact .fine hc hr (Or.inl rfl)
      next hr => cases h; exact .fine hc hr (Or.inr rfl)
      next hr => cases h; exact .failed hc hr
      next hr => cases h; exact .failed hc hr
    next hi =>
      split at h
      next hnone =>
        subst hnone
        cases h
        exact .ok hc (not_lt.mp hi)
      next => cases h; exact .errors hc

end BlitzFtpSteps
