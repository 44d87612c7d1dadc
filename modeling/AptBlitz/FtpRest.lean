import AptBlitz.FtpResults

/-! # `REST`

    A segment that does not start the file is asked for by `REST` and `RETR`.
    A server that accepts `REST` says 350; one that does not sends the file
    from its first byte, and everything else goes on as usual.  The worker
    reads the reply and does not look at it: `cmd` expects no code, where the
    replies to `RETR` and `SIZE` are held against theirs.

    `heeds_rest_iff` says that refusals are heeded if and only if there are
    none. -/

namespace BlitzFtpRest

open BlitzBuffer SegmentsBuffer BlitzTransfers BlitzClients BlitzFtp RustText
open BlitzFtpSteps BlitzFtpRuns BlitzFtpResults Download Runs

variable {d d' : Download} {w : Nat} {a : Act} {acts : List Act} {input : Input} {pc : Pc}
  {c : Claim} {n totalSize : Nat} {file : Bytes}

/-- The reply's code is 350. -/
def Accepts (resp : Text) : Prop := resp.take 3 = "350".toList

instance (resp : Text) : Decidable (Accepts resp) := inferInstanceAs (Decidable (_ = _))

/-- A data connection that starts where the segment does: at the start of the
    file, or behind a `REST` that was accepted. -/
def Restarted (start _stop : Nat) (conn : DataConnection) : Prop :=
  0 < start → ∃ resp, conn.rest = some resp ∧ Accepts resp

/-- Every reply to `REST` is a 350. -/
def AcceptsRest (d : Download) (a : Act) : Prop :=
  ∀ w c addr resp, a = .worker w (.reply (.ok resp)) → d.workers w = .rest c addr → Accepts resp

/-- The claim whose segment the worker writes to, or marks, next. -/
def Pc.stores : Pc → Option Claim
  | .write c _ _ => some c
  | .markState c => some c
  | _ => none

/-- A refused `REST` fails the worker, and what is written and marked came
    over a connection that starts where the segment does. -/
structure Heeds (d : Download) (a : Act) : Prop where
  refused : ∀ w c addr resp, a = .worker w (.reply (.ok resp)) → d.workers w = .rest c addr →
    ¬ Accepts resp → ∃ d' e, step d a = some d' ∧ d'.workers w = .ended (.error e)
  stored : ∀ w input c, a = .worker w input → Pc.stores (d.workers w) = some c →
    ∃ t, lastTransfer c.id d.log = some t ∧ Restarted c.start c.end t.head

/-! ## Between the reply and the data connection -/

/-- The connection to be opened starts where the segment does. -/
def Pc.Asked : Pc → Prop
  | .retr c conn => Restarted c.start c.end conn
  | .connect c conn => Restarted c.start c.end conn
  | _ => True

/-- What the reply to `REST` does: nothing looks at its code. -/
theorem retr_of_reply {addr : Text × Nat} {resp : Text} (hw : d.workers w = .rest c addr) :
    workerStep d w (.reply (.ok resp)) = some (d.goto w (.retr c ⟨addr, some resp⟩)) := by
  simp only [workerStep, hw]

/-- A `REST` that was accepted. -/
theorem asked_rest {addr : Text × Nat} (hw : d.workers w = .rest c addr)
    (hG : AcceptsRest d (.worker w input)) (h : workerStep d w input = some d') :
    Pc.Asked (d'.workers w) := by
  have hself : ∀ pc, (d.goto w pc).workers w = pc := fun pc => Function.update_self ..
  cases input with
  | reply result =>
      cases result with
      | error msg =>
          simp only [workerStep, hw] at h
          cases h
          rw [fail, hself]
          exact trivial
      | ok resp =>
          rw [retr_of_reply hw] at h
          cases h
          rw [hself]
          exact fun _ => ⟨resp, rfl, hG w c addr resp rfl hw⟩
  | panic inLock =>
      simp only [workerStep, panicStep, hw] at h
      cases h
      rw [hself]
      exact trivial
  | _ =>
      simp only [workerStep, hw] at h
      cases h

/-- A worker that has asked goes on. -/
theorem asked_moves {pc' : Pc} (hm : Moves pc pc') (h : Pc.Asked pc)
    (hrest : ∀ c addr, pc ≠ .rest c addr) : Pc.Asked pc' := by
  cases hm with
  | fromStart hzero => exact fun hpos => absurd hzero (Nat.ne_of_gt hpos)
  | rested => exact absurd rfl (hrest _ _)
  | retr => exact h
  | _ => exact trivial

/-- **Step of a worker** whose `REST` is accepted. -/
theorem asked_worked (hw : Worked d w input d') (h : Pc.Asked (d.workers w))
    (hG : AcceptsRest d (.worker w input)) (hs : workerStep d w input = some d') :
    Pc.Asked (d'.workers w) := by
  by_cases hrest : ∃ c addr, d.workers w = .rest c addr
  · obtain ⟨c, addr, hrest⟩ := hrest
    exact asked_rest hrest hG hs
  · have hnew : ∀ {pc}, d'.workers = Function.update d.workers w pc → Pc.Asked pc →
        Pc.Asked (d'.workers w) := by
      intro pc hpc hasked
      rw [hpc, Function.update_self]
      exact hasked
    cases hw with
    | moved hm =>
        exact hnew rfl (asked_moves hm h fun c addr hpc => hrest ⟨c, addr, hpc⟩)
    | wrote =>
        refine hnew rfl ?_
        rw [readLoop]
        split
        · exact trivial
        · exact trivial
    | _ => exact hnew rfl trivial

/-- Only a worker that opens its data connection opens a transfer. -/
theorem connecting_of_opened {id : Nat} {conn : DataConnection} (h : Worked d w input d')
    (hlog : d'.log = d.log ++ [⟨w, id, .opened conn⟩]) :
    ∃ c, d.workers w = .connect c conn ∧ c.id = id := by
  cases h with
  | opened hw =>
      cases List.append_cancel_left hlog
      exact ⟨_, hw, rfl⟩
  | push => cases List.append_cancel_left hlog
  | received => cases List.append_cancel_left hlog
  | wrote => cases List.append_cancel_left hlog
  | ready => cases List.append_cancel_left hlog
  | _ =>
      -- the others leave the log as it is
      cases List.append_right_eq_self.mp hlog.symm

/-! ## Whole runs -/

/-- What holds while every `REST` is accepted. -/
structure RestInv (totalSize : Nat) (d : Download) : Prop where
  run : RunInv totalSize False d
  asked : ∀ w, Pc.Asked (d.workers w)
  heads : HeadsOk Restarted (snap d)

/-- At the start. -/
theorem restInv_start (hfile : file.length = totalSize) :
    RestInv totalSize (start n totalSize file) := by
  refine ⟨runInv_start hfile, fun w => ?_, nofun⟩
  show Pc.Asked (if w < n then .permit else .unspawned)
  split
  · exact trivial
  · exact trivial

/-- **Step** in which a `REST` is accepted. -/
theorem restInv_step (h : RestInv totalSize d) (hG : AcceptsRest d a)
    (hs : step d a = some d') : RestInv totalSize d' := by
  have hrun := runInv_step h.run (fun hf => hf.elim) hs
  cases a with
  | worker w input =>
      have hw := worked_of_workerStep hs
      refine ⟨hrun, fun v => ?_, ?_⟩
      · by_cases hv : v = w
        · subst hv
          exact asked_worked hw (h.asked v) hG hs
        · rw [(framed_worked hw).others v hv]
          exact h.asked v
      · refine h.heads.effect h.run.buffer h.run.log
          (worked_effect h.run.buffer h.run.log hw fun hf => hf.elim) ?_
        intro x conn hx hlog
        obtain ⟨c, hconnect, -⟩ := connecting_of_opened hw hlog
        have hasked := h.asked w
        rw [hconnect] at hasked
        cases (doing_of hconnect).symm.trans hx
        exact hasked
  | await =>
      cases awaited_of_awaitStep hs with
      | _ => exact ⟨hrun, h.asked, h.heads⟩

/-- Who writes or marks is in a transfer. -/
theorem doing_of_stores (h : Pc.stores (d.workers w) = some c) :
    ∃ ok, Pc.doing False (d.workers w) = some ⟨c.id, c.start, c.end, ok⟩ ∧
      ∀ t, ok t → ∃ t', t = some t' := by
  cases hpc : d.workers w with
  | write c' k data =>
      rw [hpc] at h
      cases h
      refine ⟨_, rfl, ?_⟩
      rintro t ⟨t', ht, -⟩
      exact ⟨t', ht⟩
  | markState c' =>
      rw [hpc] at h
      cases h
      refine ⟨_, rfl, ?_⟩
      rintro t ⟨t', ht, -⟩
      exact ⟨t', ht⟩
  | _ =>
      rw [hpc] at h
      cases h

/-- A `REST` that was accepted is heeded. -/
theorem heeds_of_accepts (h : RestInv totalSize d) (hG : AcceptsRest d a) : Heeds d a := by
  constructor
  · intro w c addr resp ha hw hno
    exact absurd (hG w c addr resp ha hw) hno
  · intro w input c _ hst
    obtain ⟨ok, hdoing, hok⟩ := doing_of_stores hst
    obtain ⟨-, -, hcur⟩ := h.run.log.working w _ hdoing
    obtain ⟨t, ht⟩ := hok _ hcur
    exact ⟨t, ht, h.heads.current h.run.buffer hdoing ht⟩

/-- The worker whose `REST` was refused goes on to `RETR`. -/
theorem accepts_of_heeds (h : Heeds d a) : AcceptsRest d a := by
  intro w c addr resp ha hw
  by_contra hno
  obtain ⟨d', e, hs, hend⟩ := h.refused w c addr resp ha hw hno
  subst ha
  have hs : workerStep d w (.reply (.ok resp)) = some d' := hs
  rw [retr_of_reply hw] at hs
  cases hs
  have hself : (d.goto w (.retr c ⟨addr, some resp⟩)).workers w = .retr c ⟨addr, some resp⟩ :=
    Function.update_self ..
  cases hself.symm.trans hend

/-- **Refusals, exactly**: in a run, refused `REST`s fail their workers, and
    what is written or marked came from where its segment starts, if and only
    if the server accepts every `REST`. -/
theorem heeds_rest_iff (hfile : file.length = totalSize) :
    Along step Heeds (start n totalSize file) acts ↔
      Along step AcceptsRest (start n totalSize file) acts := by
  constructor
  · intro h
    exact along_mono (fun _ _ => accepts_of_heeds) h
  · intro h
    exact along_of_along (fun _ _ _ => restInv_step) (fun _ _ => heeds_of_accepts)
      (restInv_start hfile) h

/-! ### The last byte of a file of two segments

    Worker 0 takes the first MiB, worker 1 the byte behind it. -/

/-- A file of two segments. -/
def twoSegments : Bytes := List.replicate 1048577 0

/-- A server that can restart. -/
def acceptedReply : Text := "350 Restarting".toList

/-- A server that cannot. -/
def refusedReply : Text := "502 Not implemented".toList

/-- Worker 1, told `resp`, gets a byte, writes it and marks its segment. -/
def lastByte (resp : Text) : List Act :=
  [.worker 0 .go, .worker 0 (.sent (.ok ())), .worker 0 .go, .worker 0 .go, .worker 0 .go,
    .worker 1 .go, .worker 1 (.sent (.ok ())), .worker 1 .go, .worker 1 .go, .worker 1 .go,
    .worker 1 (.reply (.ok pasvReply)), .worker 1 (.reply (.ok resp)), .worker 1 (.sent (.ok ())),
    .worker 1 (.sent (.ok ())), .worker 1 (.reply (.ok "150 Opening".toList)),
    .worker 1 (.read (.ok [7])), .worker 1 (.write true [.ok 1]),
    .worker 1 (.reply (.ok "226 Done".toList)), .worker 1 .go]

theorem heeds_rest_lastByte :
    Along step Heeds (start 2 1048577 twoSegments) (lastByte acceptedReply) ↔
      Along step AcceptsRest (start 2 1048577 twoSegments) (lastByte acceptedReply) :=
  heeds_rest_iff List.length_replicate

theorem not_heeds_rest :
    ∃ d t, run step (start 2 1048577 twoSegments) (lastByte refusedReply) = some d ∧
      d.buf.segments[1]? = some ⟨1048576, 1048577, .ready⟩ ∧ lastTransfer 1 d.log = some t ∧
      t.writes = [(1048576, [7])] ∧ t.head.rest = some refusedReply ∧ ¬ Accepts refusedReply := by
  have hany : (run step (start 2 1048577 twoSegments) (lastByte refusedReply)).any (fun d =>
      decide (d.buf.segments[1]? = some ⟨1048576, 1048577, .ready⟩) &&
        (lastTransfer 1 d.log).any fun t =>
          decide (t.writes = [(1048576, [7])] ∧ t.head.rest = some refusedReply)) = true := by
    decide
  obtain ⟨d, hrun, hd⟩ := run_of_any hany
  obtain ⟨hseg, hlast⟩ := Bool.and_eq_true_iff.mp hd
  obtain ⟨t, ht, hkept⟩ := (Option.any_eq_true _ _).mp hlast
  obtain ⟨hwrites, hrest⟩ := of_decide_eq_true hkept
  exact ⟨d, t, hrun, of_decide_eq_true hseg, ht, hwrites, hrest, by decide⟩

end BlitzFtpRest
