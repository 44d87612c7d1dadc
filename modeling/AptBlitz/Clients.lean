import AptBlitz.Transfers

/-! # Clients of the segment buffer

    What the HTTP and the FTP downloader have in common: workers, each at
    some point of its own program, a buffer, and the log of their transfers.
    A `Client` says what a worker at a point holds of the buffer and which
    transfer it is in.

    `Effect` lists what a worker's step may do.  A downloader shows that its
    steps are effects; it follows that its runs refine the claim protocol
    (`Effect.simulates`) and that its log agrees with its segments
    (`Effect.logInv`). -/

namespace BlitzClients

open BlitzBuffer SegmentsBuffer BlitzClaims BlitzTransfers Runs

/-- What a worker at a point of its program holds of the buffer, and the
    segment it fills there.  Who fills a segment holds it. -/
structure Client (ρ P : Type) where
  call : P → Call
  doing : P → Option (Doing ρ)
  call_of_doing : ∀ pc x, doing pc = some x → call pc = .holds x.id x.start x.stop

/-- The buffer, the workers and the log. -/
structure Snap (ρ P : Type) where
  buf : SegmentsBuffer
  workers : Nat → P
  log : List (Event ρ)

variable {ρ P : Type}

/-- Worker `w` goes to `pc`, the buffer becomes `b`. -/
def Snap.put (s : Snap ρ P) (b : SegmentsBuffer) (w : Nat) (pc : P) : Snap ρ P :=
  { s with buf := b, workers := Function.update s.workers w pc }

/-- An event of worker `w` with segment `id`. -/
def Snap.note (s : Snap ρ P) (w id : Nat) (what : What ρ) : Snap ρ P :=
  { s with log := s.log ++ [⟨w, id, what⟩] }

/-- What the claim protocol sees. -/
def Snap.view (s : Snap ρ P) (C : Client ρ P) : Shared :=
  ⟨s.buf, fun w => C.call (s.workers w)⟩

/-- Which segment each worker fills. -/
def filling (C : Client ρ P) (workers : Nat → P) (w : Nat) : Option (Doing ρ) :=
  C.doing (workers w)

/-- What a step of worker `w` may do; `Good` is what a transfer must be for
    its segment to be marked. -/
inductive Effect (C : Client ρ P) (Good : Segment → Transfer ρ → Prop) (s : Snap ρ P)
    (w : Nat) : Snap ρ P → Prop
  /-- nothing that another could see -/
  | quiet {pc} (hcall : C.call pc = C.call (s.workers w))
      (hdoing : ∀ x', C.doing pc = some x' → ∃ x, C.doing (s.workers w) = some x ∧
        x'.id = x.id ∧ x'.start = x.start ∧ x'.stop = x.stop ∧ ∀ t, x.ok t → x'.ok t) :
      Effect C Good s w (s.put s.buf w pc)
  /-- the worker lets go of what it holds -/
  | dropped {pc} (hw : (C.call (s.workers w)).claim = none) (hidle : C.call pc = .idle) :
      Effect C Good s w (s.put s.buf w pc)
  | exhausted {pc p b} (hw : C.call (s.workers w) = .idle)
      (h : s.buf.claimCas p = (b, none)) (hidle : C.call pc = .idle) :
      Effect C Good s w (s.put b w pc)
  | cas {pc p b r} (hw : C.call (s.workers w) = .idle)
      (h : s.buf.claimCas p = (b, some r)) (hcall : C.call pc = .claimed r.1 r.2) :
      Effect C Good s w (s.put b w pc)
  | push {pc a z} (hw : C.call (s.workers w) = .claimed a z)
      (hdoing : C.doing pc = some ⟨s.buf.segments.length, a, z, fun _ => True⟩) :
      Effect C Good s w ((s.put (s.buf.claimPush (a, z)).1 w pc).note w
        s.buf.segments.length (.claimed a z))
  /-- the worker opens a transfer or receives bytes -/
  | event {pc x ok' what} (hw : C.doing (s.workers w) = some x) (hwhat : what ≠ .ready)
      (hdoing : C.doing pc = some { x with ok := ok' })
      (hok : ∀ t, x.ok t → ok' (Transfer.next t what)) :
      Effect C Good s w ((s.put s.buf w pc).note w x.id what)
  | wrote {pc x ok' off data results b} (hw : C.doing (s.workers w) = some x)
      (hlo : x.start ≤ off) (hhi : off + data.length ≤ x.stop)
      (h : s.buf.writeData off data results = some (.ok (), b))
      (hdoing : C.doing pc = some { x with ok := ok' })
      (hok : ∀ t, x.ok t → ok' (Transfer.next t (.wrote off data))) :
      Effect C Good s w ((s.put b w pc).note w x.id (.wrote off data))
  /-- a `write_data` that fails, and the worker with it -/
  | wroteSome {pc x off data results b e} (hw : C.doing (s.workers w) = some x)
      (hlo : x.start ≤ off) (hhi : off + data.length ≤ x.stop)
      (h : s.buf.writeData off data results = some (.error e, b))
      (hidle : C.call pc = .idle) : Effect C Good s w (s.put b w pc)
  | ready {pc x} (hw : C.doing (s.workers w) = some x) (hcall : C.call pc = .marking x.id)
      (hok : ∀ t, x.ok t → ∃ t', t = some t' ∧ Good ⟨x.start, x.stop, .ready⟩ t') :
      Effect C Good s w ((s.put (s.buf.setReady x.id) w pc).note w x.id .ready)
  | counted {pc id} (hw : C.call (s.workers w) = .marking id) (hidle : C.call pc = .idle) :
      Effect C Good s w (s.put s.buf.addReady w pc)
  /-- `set_failed`, on anybody's behalf -/
  | setFailed : Effect C Good s w { s with buf := s.buf.setFailed }

variable {C : Client ρ P} {Good : Segment → Transfer ρ → Prop} {s s' : Snap ρ P}
  {b : SegmentsBuffer} {w totalSize off : Nat} {pc : P} {x : Doing ρ} {data : Bytes}
  {results : List (Except IoError Nat)} {r : Except IoError Unit} {file : Bytes}

/-! ## What the protocol gives -/

/-- What holds of the buffer and of what the workers hold of it. -/
structure BufferInv (totalSize : Nat) (s : Shared) : Prop where
  claims : ClaimInv s
  size : s.buf.totalSize = totalSize
  file_len : s.buf.file.length = s.buf.totalSize

theorem bufferInv_start (h : file.length = totalSize) :
    BufferInv totalSize (start totalSize file) :=
  ⟨claimInv_start totalSize file, rfl, h⟩

/-- **Step** of any thread. -/
theorem bufferInv_step {s s' : Shared} {act : Nat × Op}
    (h : BufferInv totalSize s) (hs : step s act = some s') : BufferInv totalSize s' := by
  have hst := stepped_of_threadStep hs
  exact ⟨claimInv_step h.claims hst, (totalSize_step hst).trans h.size,
    fileLength_step h.claims h.file_len hst⟩

/-- A worker that goes on, as the claims see it. -/
theorem view_put : (s.put b w pc).view C = (s.view C).put b w (C.call pc) := by
  rw [Snap.view, Snap.put, Shared.put]
  congr 1
  funext v
  exact Function.apply_update (fun _ => C.call) s.workers w pc v

/-- A worker at work on a segment holds it. -/
theorem calls_of_doing (h : C.doing (s.workers w) = some x) :
    (s.view C).calls w = .holds x.id x.start x.stop :=
  C.call_of_doing _ x h

/-- A worker that holds nothing is at work on nothing. -/
theorem doing_none (h : ∀ id a z, C.call pc ≠ .holds id a z) : C.doing pc = none := by
  cases hd : C.doing pc with
  | none => rfl
  | some x => exact absurd (C.call_of_doing pc x hd) (h _ _ _)

/-- An idle worker is at work on nothing. -/
theorem doing_none_of_idle (h : C.call pc = .idle) : C.doing pc = none :=
  doing_none fun _ _ _ hc => nomatch h.symm.trans hc

/-- A segment somebody fills is in the vector, and not ready. -/
theorem seg_of_doing (hb : BufferInv totalSize (s.view C))
    (h : C.doing (s.workers w) = some x) :
    s.buf.segments[x.id]? = some ⟨x.start, x.stop, .downloading⟩ :=
  hb.claims.holds_seg w _ _ _ (calls_of_doing h)

theorem bounds_of_doing (hb : BufferInv totalSize (s.view C))
    (h : C.doing (s.workers w) = some x) : x.start < x.stop ∧ x.stop ≤ s.buf.file.length := by
  have hlen : s.buf.file.length = s.buf.totalSize := hb.file_len
  rw [hlen]
  exact hb.claims.holds_le (calls_of_doing h)

/-- No two workers fill one segment. -/
theorem ids_of_doing (hb : BufferInv totalSize (s.view C))
    (h : C.doing (s.workers w) = some x) :
    ∀ v y, v ≠ w → filling C s.workers v = some y → y.id ≠ x.id := by
  intro v y hv hy hid
  refine hv (hb.claims.one_call v w x.id ?_ ?_)
  · rw [calls_of_doing hy, ← hid]; rfl
  · rw [calls_of_doing h]; rfl

/-- Whatever `write_data` returns, some first part of the bytes was written,
    inside the segment. -/
theorem written_of_doing (hb : BufferInv totalSize (s.view C))
    (hw : C.doing (s.workers w) = some x) (hhi : off + data.length ≤ x.stop)
    (h : s.buf.writeData off data results = some (r, b)) :
    ∃ part : Bytes, off + part.length ≤ x.stop ∧
      b = { s.buf with file := FileContent.overwrite 0 s.buf.file off part } := by
  have hle := (bounds_of_doing hb hw).2
  obtain ⟨k, hk, hbuf, -⟩ := writeData_spec (by omega) h
  refine ⟨data.take k, ?_, hbuf⟩
  rw [List.length_take]
  omega

/-! ## Effects and the claim protocol -/

/-- **Simulation**: the effect of a worker's step is a run of the claim
    protocol, of no step or one; two for a write that fails. -/
theorem Effect.simulates (hb : BufferInv totalSize (s.view C)) (h : Effect C Good s w s') :
    Reaches step (s.view C) (s'.view C) := by
  have hone : ∀ {op t}, threadStep (s.view C) w op = some t →
      Reaches step (s.view C) t := fun {op} _ hop => Reaches.single (a := (w, op)) hop
  cases h with
  | quiet hcall _ =>
      rw [view_put]
      have heq : (s.view C).put s.buf w (C.call _) = s.view C := put_self hcall
      rw [heq]
      exact Reaches.refl
  | dropped hw hidle =>
      rw [view_put, hidle]
      rcases threadStep_giveUp (s := s.view C) (w := w) hw with heq | hop
      · have heq : (s.view C).put s.buf w .idle = s.view C := heq
        rw [heq]
        exact Reaches.refl
      · exact hone hop
  | exhausted hw hcas hidle =>
      rw [view_put, hidle]
      exact hone (threadStep_exhausted hw hcas)
  | cas hw hcas hcall =>
      rw [view_put, hcall]
      exact hone (threadStep_cas hw hcas)
  | push hw hdoing =>
      show Reaches step (s.view C) ((s.put _ w _).view C)
      rw [view_put, C.call_of_doing _ _ hdoing]
      exact hone (threadStep_push hw)
  | event hw _ hdoing _ =>
      have hcall := (C.call_of_doing _ _ hdoing).trans (C.call_of_doing _ _ hw).symm
      have heq : (s.view C).put s.buf w (C.call _) = s.view C := put_self hcall
      rw [← view_put] at heq
      show Reaches step (s.view C) ((s.put s.buf w _).view C)
      rw [heq]
      exact Reaches.refl
  | @wrote pc x ok' off data results b hw hlo hhi hwrite hdoing _ =>
      have hcall : C.call pc = .holds x.id x.start x.stop :=
        C.call_of_doing pc { x with ok := ok' } hdoing
      obtain ⟨part, hpart, rfl⟩ := written_of_doing hb hw hhi hwrite
      show Reaches step (s.view C) ((s.put _ w _).view C)
      rw [view_put, hcall]
      exact hone (threadStep_write (calls_of_doing hw) hlo hpart)
  | wroteSome hw hlo hhi hwrite hidle =>
      -- some bytes are written, then the segment is given up
      obtain ⟨part, hpart, rfl⟩ := written_of_doing hb hw hhi hwrite
      rw [view_put, hidle]
      refine Reaches.trans (hone (threadStep_write (calls_of_doing hw) hlo hpart)) ?_
      exact Reaches.single (a := (w, .abandon)) threadStep_put_abandon
  | ready hw hcall _ =>
      show Reaches step (s.view C) ((s.put _ w _).view C)
      rw [view_put, hcall]
      exact hone (threadStep_setReady (calls_of_doing hw))
  | counted hw hidle =>
      rw [view_put, hidle]
      exact hone (threadStep_addReady hw)
  | setFailed => exact hone threadStep_setFailed

/-! ## Effects and the log -/

/-- The log agrees with the segments and with what the workers do. -/
def LogOk (C : Client ρ P) (Good : Segment → Transfer ρ → Prop) (s : Snap ρ P) : Prop :=
  LogInv Good s.buf.segments s.log (filling C s.workers)

theorem filling_self {workers : Nat → P} {o : Option (Doing ρ)} (h : C.doing pc = o) :
    filling C (Function.update workers w pc) w = o := by
  rw [filling]
  rw [Function.update_self, h]

theorem filling_other {workers : Nat → P} (v : Nat) (hv : v ≠ w) :
    filling C (Function.update workers w pc) v = filling C workers v := by
  simp only [filling]
  rw [Function.update_of_ne hv]

/-- No event, and afterwards the worker fills no segment. -/
theorem LogOk.dropped (h : LogOk C Good s) (hb : b.segments = s.buf.segments)
    (hpc : C.doing pc = none) : LogOk C Good (s.put b w pc) := by
  show LogInv Good b.segments s.log (filling C (Function.update s.workers w pc))
  rw [hb]
  refine h.quiet filling_other ?_
  intro x hx
  rw [filling_self hpc] at hx
  exact nomatch hx

/-- **Log**: the effect of a worker's step keeps log, segments and workers in
    agreement. -/
theorem Effect.logOk (hb : BufferInv totalSize (s.view C)) (hlog : LogOk C Good s)
    (h : Effect C Good s w s') : LogOk C Good s' := by
  cases h with
  | quiet _ hdoing =>
      refine LogInv.quiet hlog filling_other ?_
      intro x' hx'
      exact hdoing x' ((filling_self rfl).symm.trans hx')
  | dropped _ hidle => exact hlog.dropped rfl (doing_none_of_idle hidle)
  | exhausted _ hcas hidle =>
      rcases claimCas_none hcas with rfl | ⟨rfl, -⟩
      · exact hlog.dropped rfl (doing_none_of_idle hidle)
      · exact hlog.dropped rfl (doing_none_of_idle hidle)
  | cas _ hcas hcall =>
      obtain ⟨rfl, -⟩ := claimCas_some hcas
      exact hlog.dropped rfl (doing_none fun _ _ _ hc => nomatch hcall.symm.trans hc)
  | push _ hdoing =>
      refine LogInv.claimed hlog filling_other ?_ (filling_self hdoing)
      intro v y hv hy
      exact (List.getElem?_eq_some_iff.mp (seg_of_doing hb hy)).1
  -- only a worker that fills a segment adds to the log
  | event hw hwhat hdoing hok =>
      have hseg := seg_of_doing hb hw
      exact LogInv.event hlog hw hwhat filling_other (filling_self hdoing)
        (ids_of_doing hb hw) ⟨_, hseg, rfl⟩ hok
  | wrote hw _ _ hwrite hdoing hok =>
      have hseg := seg_of_doing hb hw
      obtain ⟨file, rfl⟩ := writeData_file hwrite
      exact LogInv.event hlog hw nofun filling_other (filling_self hdoing)
        (ids_of_doing hb hw) ⟨_, hseg, rfl⟩ hok
  | wroteSome _ _ _ hwrite hidle =>
      obtain ⟨file, rfl⟩ := writeData_file hwrite
      exact hlog.dropped rfl (doing_none_of_idle hidle)
  | ready hw hcall hok =>
      have hnone := doing_none fun _ _ _ hc => nomatch hcall.symm.trans hc
      exact LogInv.marked hlog hw filling_other (filling_self hnone)
        (ids_of_doing hb hw) (seg_of_doing hb hw) (setReady_self (seg_of_doing hb hw))
        length_setReady (fun i hi => setReady_of_ne hi) hok
  | counted _ hidle => exact hlog.dropped rfl (doing_none_of_idle hidle)
  | setFailed => exact hlog

/-! ## Heads of transfers -/

variable {Q : Nat → Nat → ρ → Prop}

/-- Every transfer was opened with a head that suits its segment. -/
def HeadsOk (Q : Nat → Nat → ρ → Prop) (s : Snap ρ P) : Prop :=
  ∀ e ∈ s.log, ∀ head, e.what = .opened head → ∀ seg : Segment,
    s.buf.segments[e.id]? = some seg → Q seg.start seg.end head

/-- Ranges stay, and new ones come last. -/
theorem Effect.ranges (h : Effect C Good s w s') :
    ∃ rs, s'.buf.ranges = s.buf.ranges ++ rs := by
  have hsame : ∀ {b : SegmentsBuffer}, b.ranges = s.buf.ranges →
      ∃ rs, b.ranges = s.buf.ranges ++ rs :=
    fun hb => ⟨[], hb.trans (List.append_nil _).symm⟩
  cases h with
  | exhausted _ hcas =>
      rcases claimCas_none hcas with rfl | ⟨rfl, -⟩
      · exact hsame rfl
      · exact hsame rfl
  | cas _ hcas =>
      obtain ⟨rfl, -⟩ := claimCas_some hcas
      exact hsame rfl
  | push => exact ⟨_, ranges_claimPush⟩
  | wrote _ _ _ hwrite =>
      obtain ⟨file, rfl⟩ := writeData_file hwrite
      exact hsame rfl
  | wroteSome _ _ _ hwrite =>
      obtain ⟨file, rfl⟩ := writeData_file hwrite
      exact hsame rfl
  | ready => exact hsame ranges_setReady
  | _ => exact hsame rfl

/-- A segment stays where it is. -/
theorem Effect.segment {seg : Segment} {id : Nat} (h : Effect C Good s w s')
    (hseg : s.buf.segments[id]? = some seg) :
    ∃ seg', s'.buf.segments[id]? = some seg' ∧ seg'.start = seg.start ∧ seg'.end = seg.end := by
  obtain ⟨rs, hrs⟩ := h.ranges
  have hlt : id < s.buf.ranges.length := by
    rw [length_ranges]
    exact (List.getElem?_eq_some_iff.mp hseg).1
  have hrange : s'.buf.ranges[id]? = some seg.range := by
    rw [hrs, List.getElem?_append_left hlt, getElem?_ranges, hseg]
    rfl
  rw [getElem?_ranges] at hrange
  obtain ⟨seg', hseg', hsame⟩ := Option.map_eq_some_iff.mp hrange
  exact ⟨seg', hseg', congrArg Prod.fst hsame, congrArg Prod.snd hsame⟩

/-- A step adds at most one event to the log; who opens a transfer fills the
    segment. -/
theorem Effect.log (h : Effect C Good s w s') : s'.log = s.log ∨
    ∃ e, s'.log = s.log ++ [e] ∧ ∀ head, e.what = .opened head →
      ∃ x, C.doing (s.workers w) = some x ∧ e = ⟨w, x.id, .opened head⟩ := by
  cases h with
  | push => exact Or.inr ⟨_, rfl, nofun⟩
  | event hw =>
      refine Or.inr ⟨_, rfl, ?_⟩
      rintro head rfl
      exact ⟨_, hw, rfl⟩
  | wrote => exact Or.inr ⟨_, rfl, nofun⟩
  | ready => exact Or.inr ⟨_, rfl, nofun⟩
  | _ => exact Or.inl rfl

/-- What suits after a step suited before. -/
theorem HeadsOk.back (h : HeadsOk Q s') (heff : Effect C Good s w s') : HeadsOk Q s := by
  intro e he head hhead seg hseg
  obtain ⟨seg', hseg', hstart, hend⟩ := heff.segment hseg
  have hmem : e ∈ s'.log := by
    rcases heff.log with hlog | ⟨e', hlog, -⟩
    · rw [hlog]
      exact he
    · rw [hlog]
      exact List.mem_append_left _ he
  rw [← hstart, ← hend]
  exact h e hmem head hhead seg' hseg'

/-- **Heads**: a step keeps them in order if the head it opens a transfer
    with, if any, suits the worker's segment. -/
theorem HeadsOk.effect (h : HeadsOk Q s) (hb : BufferInv totalSize (s.view C))
    (hlog : LogOk C Good s) (heff : Effect C Good s w s')
    (hQ : ∀ x head, C.doing (s.workers w) = some x →
      s'.log = s.log ++ [⟨w, x.id, .opened head⟩] → Q x.start x.stop head) : HeadsOk Q s' := by
  intro e he head hhead seg hseg
  -- the segment as it was before the step
  have hback : ∀ {seg₀ : Segment}, s.buf.segments[e.id]? = some seg₀ →
      Q seg₀.start seg₀.end head → Q seg.start seg.end head := by
    intro seg₀ hseg₀ hq
    obtain ⟨seg', hseg', hstart, hend⟩ := heff.segment hseg₀
    obtain rfl : seg' = seg := Option.some.inj (hseg'.symm.trans hseg)
    rw [hstart, hend]
    exact hq
  have hold : e ∈ s.log → Q seg.start seg.end head := by
    intro hmem
    have hlt : e.id < s.buf.segments.length := hlog.ids e hmem
    have hseg₀ := List.getElem?_eq_getElem hlt
    exact hback hseg₀ (h e hmem head hhead _ hseg₀)
  rcases heff.log with hsame | ⟨e', hnew, hopened⟩
  · exact hold (hsame ▸ he)
  · rcases List.mem_append.mp (hnew ▸ he) with hmem | hlast
    · exact hold hmem
    · obtain rfl := List.mem_singleton.mp hlast
      obtain ⟨x, hx, rfl⟩ := hopened head hhead
      exact hback (seg_of_doing hb hx) (hQ x head hx hnew)

/-- The transfer that a worker is in suits its segment. -/
theorem HeadsOk.current {t : Transfer ρ} (h : HeadsOk Q s) (hb : BufferInv totalSize (s.view C))
    (hw : C.doing (s.workers w) = some x) (ht : lastTransfer x.id s.log = some t) :
    Q x.start x.stop t.head := by
  obtain ⟨e, hmem, hid, hhead⟩ := opened_of_lastTransfer ht
  exact h e hmem t.head hhead _ (by rw [hid]; exact seg_of_doing hb hw)

/-- So does the transfer that delivered a segment. -/
theorem HeadsOk.delivered {R : Segment → Transfer ρ → Prop} {seg : Segment} {id : Nat}
    (h : HeadsOk Q s) (hseg : s.buf.segments[id]? = some seg) (hdel : Delivered R s.log id seg) :
    Delivered (fun seg t => R seg t ∧ Q seg.start seg.end t.head) s.log id seg := by
  refine hdel.imp_opened ?_
  rintro t ⟨e, hmem, rfl, hhead⟩ hR
  exact ⟨hR, h e hmem t.head hhead seg hseg⟩

end BlitzClients
