import AptBlitz.DownloaderResults
import AptBlitz.FtpResults
import AptBlitz.Library.Permits

/-! # The permits of the workers

    `WorkerLimiter`: one semaphore for the workers of all downloads, HTTP and
    FTP.  A worker's task takes its permit before anything else and drops it
    with itself, however it ends: a task that is aborted, as those of a
    download that has returned a fatal error are, drops its permit as one
    that panics.  Which of the waiting tasks gets a permit is up to the
    schedule.

    The permits that are available and those of the workers at work are
    always as many as `new` made (`workers_within_limit`), so a worker that
    waits can go on exactly when fewer are at work (`permit_wait_iff`), and
    when the downloads are over all of them are back
    (`permits_come_back`). -/

namespace BlitzWorkerPermits

open Runs Permits

/-! ## The limiter and its downloads -/

/-- `UNLIMITED`. -/
def unlimited : Nat := 1000000

/-- The permits that `WorkerLimiter::new` makes. -/
def permits (maxWorkers : Nat) : Nat := if maxWorkers = 0 then unlimited else maxWorkers

/-- A download that shares the limiter. -/
inductive Part where
  | http (d : BlitzDownloader.Download)
  | ftp (d : BlitzFtp.Download)

/-- `WorkerLimiter`, and the downloads that share it. -/
structure WorkerLimiter where
  /-- what the semaphore has left -/
  available : Nat
  parts : List Part

/-- A new download, or a step of one. -/
inductive Act where
  /-- `download_multithreaded` is called -/
  | openHttp (numConnections totalSize : Nat)
  /-- `download_ftp_multithreaded` is called -/
  | openFtp (numConnections totalSize : Nat)
  | http (i : Nat) (a : BlitzDownloader.Act)
  | ftp (i : Nat) (a : BlitzFtp.Act)

/-- `_permit` is there in the task. -/
def httpHolds : BlitzDownloader.Pc → Bool
  | .unspawned => false
  | .permit => false
  | .ended _ => false
  | .panicked _ => false
  | _ => true

/-- `_permit` is there in the task. -/
def ftpHolds : BlitzFtp.Pc → Bool
  | .unspawned => false
  | .permit => false
  | .ended _ => false
  | .panicked _ => false
  | _ => true

/-- What a step of the download does to the semaphore. -/
def httpExchange (available : Nat) (d d' : BlitzDownloader.Download) :
    BlitzDownloader.Act → Option Nat
  | .worker w _ => exchange available (httpHolds (d.workers w)) (httpHolds (d'.workers w))
  | _ => some available

/-- What a step of the download does to the semaphore. -/
def ftpExchange (available : Nat) (d d' : BlitzFtp.Download) : BlitzFtp.Act → Option Nat
  | .worker w _ => exchange available (ftpHolds (d.workers w)) (ftpHolds (d'.workers w))
  | .await => some available

/-- `WorkerLimiter::new`. -/
def WorkerLimiter.new (maxWorkers : Nat) : WorkerLimiter := ⟨permits maxWorkers, []⟩

/-- The file that `set_len` has made. -/
def zeros (totalSize : Nat) : BlitzBuffer.Bytes := List.replicate totalSize 0

/-- One step of one of the downloads, or a new one. -/
def step (s : WorkerLimiter) : Act → Option WorkerLimiter
  | .openHttp n totalSize =>
      some { s with
        parts := s.parts ++ [.http (BlitzDownloader.start n totalSize (zeros totalSize))] }
  | .openFtp n totalSize =>
      some { s with parts := s.parts ++ [.ftp (BlitzFtp.start n totalSize (zeros totalSize))] }
  | .http i a =>
      match s.parts[i]? with
      | some (.http d) =>
          match BlitzDownloader.step d a with
          | some d' => (httpExchange s.available d d' a).map fun available =>
              ⟨available, s.parts.set i (.http d')⟩
          | none => none
      | _ => none
  | .ftp i a =>
      match s.parts[i]? with
      | some (.ftp d) =>
          match BlitzFtp.step d a with
          | some d' => (ftpExchange s.available d d' a).map fun available =>
              ⟨available, s.parts.set i (.ftp d')⟩
          | none => none
      | _ => none

/-- The workers of a download that are at work. -/
def working : Part → Nat
  | .http d => heldBy httpHolds d.workers d.totalSpawned
  | .ftp d => heldBy ftpHolds d.workers d.numConnections

variable {s s' : WorkerLimiter} {a : Act} {acts : List Act} {maxWorkers i n totalSize : Nat}
  {p : Part}

/-! ## Each download by itself -/

section Http

open BlitzDownloader BlitzDownloaderSteps BlitzDownloaderResults Download

variable {d d' : BlitzDownloader.Download} {a : BlitzDownloader.Act} {w available : Nat}
  {file : BlitzBuffer.Bytes}

/-- A step of the download and the permits of its workers. -/
theorem working_httpStep (hbooks : Books d) (hs : BlitzDownloader.step d a = some d')
    (hx : httpExchange s.available d d' a = some available) :
    available + working (.http d') = s.available + working (.http d) := by
  cases stepped_of_step hs with
  | @worker w input d' hw =>
      have hf := framed_worked hw
      have hmove := @heldBy_step _ httpHolds d.workers d'.workers w d.totalSpawned
        (hbooks.spawned_of_alive hf.alive) hf.others
      have hleft := exchange_some hx
      rw [working, working, hf.spawned]
      omega
  | spawned hc hlt =>
      have hx : s.available = available := Option.some.inj hx
      have hothers : ∀ v, v < d.totalSpawned →
          (spawnOneWorker { d with readyMsgs := d.readyMsgs - 1 }).workers v = d.workers v :=
        fun v hv => Function.update_of_ne (Nat.ne_of_lt hv) ..
      have hnew : httpHolds
          ((spawnOneWorker { d with readyMsgs := d.readyMsgs - 1 }).workers d.totalSpawned)
            = false := by
        show httpHolds (Function.update d.workers d.totalSpawned .permit d.totalSpawned) = false
        rw [Function.update_self]
        rfl
      have hmore := heldBy_succ hothers hnew
      rw [← hx]
      exact congrArg (s.available + ·) hmore
  | _ =>
      have hx : s.available = available := Option.some.inj hx
      rw [← hx]
      rfl

/-- A download that is over, unless by a fatal error, has joined all its
    workers. -/
def Joined (d : BlitzDownloader.Download) : Prop :=
  (d.coord = .panicked ∨ ∃ r, d.coord = .returned r ∧ ∀ e, r = .error e → e.isFatal = false) →
    ∀ w, w < d.totalSpawned → d.joined w = true

/-- **Step**: what `joined` says stays true. -/
theorem joined_step (hbooks : Books d) (h : Joined d) (hs : BlitzDownloader.step d a = some d') :
    Joined d' := by
  cases stepped_of_step hs with
  | worker hw =>
      have hf := framed_worked hw
      rw [Joined, hf.coord, hf.spawned, hf.joined]
      exact h
  | spawned hc =>
      have hc : d.coord = .select := hc
      rintro (hp | ⟨r, hr, -⟩)
      · cases hc.symm.trans hp
      · cases hc.symm.trans hr
  | recv => exact h
  | joined => rintro (hp | ⟨r, hr, -⟩) <;> contradiction
  | fatal _ _ _ _ he =>
      rintro (hp | ⟨r, hr, hfine⟩)
      · cases hp
      · cases hr
        exact absurd he (by rw [hfine _ rfl]; decide)
  | drained hc =>
      have hc : d.coord = .drain := hc
      rintro (hp | ⟨r, hr, -⟩)
      · cases hc.symm.trans hp
      · cases hc.symm.trans hr
  | checkPanicked hc => exact fun _ => hbooks.settled (Or.inl hc)
  | completed hc => exact fun _ => hbooks.settled (Or.inl hc)
  | incomplete hc => exact fun _ => hbooks.settled (Or.inl hc)
  | _ => rintro (hp | ⟨r, hr, -⟩) <;> contradiction

/-- **Run**: a download that returned has joined its workers. -/
theorem joined_run {acts : List BlitzDownloader.Act}
    (hrun : run BlitzDownloader.step (start n totalSize file) acts = some d) :
    Books d ∧ Joined d :=
  run_invariant (I := fun d => Books d ∧ Joined d)
    (fun _ _ _ h hs => ⟨books_step h.1 (stepped_of_step hs), joined_step h.1 h.2 hs⟩)
    ⟨books_start, by rintro (hp | ⟨r, hr, -⟩) <;> contradiction⟩ hrun

end Http

section Ftp

open BlitzFtp BlitzFtpSteps BlitzFtpResults Download

variable {d d' : BlitzFtp.Download} {a : BlitzFtp.Act} {w available : Nat}
  {file : BlitzBuffer.Bytes}

/-- A step of the download and the permits of its workers. -/
theorem working_ftpStep (hbooks : Books d) (hs : BlitzFtp.step d a = some d')
    (hx : ftpExchange s.available d d' a = some available) :
    available + working (.ftp d') = s.available + working (.ftp d) := by
  cases a with
  | worker w input =>
      have hf := framed_worked (worked_of_workerStep hs)
      have hmove := @heldBy_step _ ftpHolds d.workers d'.workers w d.numConnections
        (hbooks.spawned_lt hf.spawned) hf.others
      have hleft := exchange_some hx
      rw [working, working, hf.connections]
      omega
  | await =>
      have hx : s.available = available := Option.some.inj hx
      rw [← hx]
      cases awaited_of_awaitStep hs <;> rfl

/-- The handles that have been awaited are those of tasks that are over. -/
def Awaited (d : BlitzFtp.Download) : Prop :=
  (∀ r, d.coord = .returned r → ∀ v, v < d.numConnections → (d.workers v).joinResult ≠ none)

/-- **Step** of the FTP downloader. -/
theorem ftp_books_step (h : Books d) (hs : BlitzFtp.step d a = some d') : Books d' := by
  cases a with
  | worker w input => exact h.worked (framed_worked (worked_of_workerStep hs))
  | await => exact h.awaited (awaited_of_awaitStep hs)

/-- **Step**: the workers that were awaited are over. -/
theorem awaited_step (hbooks : Books d) (h : Awaited d) (hs : BlitzFtp.step d a = some d') :
    Awaited d' := by
  cases a with
  | worker w input =>
      have hf := framed_worked (worked_of_workerStep hs)
      intro r hr v hv
      rw [hf.coord] at hr
      rw [hf.connections] at hv
      have hover := h r hr v hv
      by_cases hvw : v = w
      · subst hvw
        exact absurd hf.alive hover
      · rw [hf.others v hvw]
        exact hover
  | await =>
      intro r hr v hv
      have hs : awaitStep d = some d' := hs
      rw [awaitStep] at hs
      split at hs
      next => cases hs
      next i errors hc =>
        split at hs
        next hi =>
          -- one more handle: the coordinator goes on
          split at hs <;> cases hs <;> cases hr
        next hi =>
          have hover : ∀ v, v < d.numConnections → (d.workers v).joinResult ≠ none :=
            fun v hv => ((hbooks.awaiting i errors hc).2 v (by omega)).1
          split at hs <;> cases hs <;> exact hover v hv

/-- **Run**: a download that returned has awaited its workers. -/
theorem awaited_run {acts : List BlitzFtp.Act}
    (hrun : run BlitzFtp.step (start n totalSize file) acts = some d) : Books d ∧ Awaited d :=
  run_invariant (I := fun d => Books d ∧ Awaited d)
    (fun _ _ _ h hs => ⟨ftp_books_step h.1 hs, awaited_step h.1 h.2 hs⟩)
    ⟨books_start, fun _ hr => nomatch hr⟩ hrun

end Ftp

/-! ## All of them -/

/-- The download has come where it is by its own steps. -/
def Ran : Part → Prop
  | .http d => ∃ n totalSize acts,
      run BlitzDownloader.step (BlitzDownloader.start n totalSize (zeros totalSize)) acts = some d
  | .ftp d => ∃ n totalSize acts,
      run BlitzFtp.step (BlitzFtp.start n totalSize (zeros totalSize)) acts = some d

/-- The limiter and its downloads. -/
structure LimiterInv (maxWorkers : Nat) (s : WorkerLimiter) : Prop where
  ran : ∀ p ∈ s.parts, Ran p
  total : s.available + inUse working s.parts = permits maxWorkers

theorem limiterInv_new : LimiterInv maxWorkers (WorkerLimiter.new maxWorkers) where
  ran _ hp := absurd hp List.not_mem_nil
  total := rfl

/-- A new download, whose workers have no permits yet. -/
theorem LimiterInv.opened (h : LimiterInv maxWorkers s) (hran : Ran p) (hidle : working p = 0) :
    LimiterInv maxWorkers { s with parts := s.parts ++ [p] } where
  ran q hq := by
    rcases List.mem_append.mp hq with hold | hnew
    · exact h.ran q hold
    · exact List.mem_singleton.mp hnew ▸ hran
  total := by
    show s.available + inUse working (s.parts ++ [p]) = _
    rw [inUse_snoc, hidle]
    exact h.total

/-- One of the downloads makes a step. -/
theorem LimiterInv.moved {q : Part} {available : Nat} (h : LimiterInv maxWorkers s)
    (hp : s.parts[i]? = some p) (hran : Ran q)
    (hwork : available + working q = s.available + working p) :
    LimiterInv maxWorkers ⟨available, s.parts.set i q⟩ where
  ran r hr := by
    rcases List.mem_or_eq_of_mem_set hr with hold | rfl
    · exact h.ran r hold
    · exact hran
  total := by
    have hset := @inUse_set _ working _ p q i hp
    have htotal := h.total
    show available + inUse working (s.parts.set i q) = _
    omega

theorem idle_http : working (.http (BlitzDownloader.start n totalSize (zeros totalSize))) = 0 := by
  refine heldBy_eq_zero fun v hv => ?_
  have hw : (BlitzDownloader.start n totalSize (zeros totalSize)).workers v = .permit := if_pos hv
  rw [hw]
  rfl

theorem idle_ftp : working (.ftp (BlitzFtp.start n totalSize (zeros totalSize))) = 0 := by
  refine heldBy_eq_zero fun v hv => ?_
  have hw : (BlitzFtp.start n totalSize (zeros totalSize)).workers v = .permit := if_pos hv
  rw [hw]
  rfl

/-- **Step** of one of the downloads. -/
theorem limiterInv_step (h : LimiterInv maxWorkers s) (hs : step s a = some s') :
    LimiterInv maxWorkers s' := by
  cases a with
  | openHttp n totalSize =>
      cases hs
      exact h.opened ⟨n, totalSize, [], rfl⟩ idle_http
  | openFtp n totalSize =>
      cases hs
      exact h.opened ⟨n, totalSize, [], rfl⟩ idle_ftp
  | http i a =>
      simp only [step] at hs
      split at hs
      next d hp =>
        split at hs
        next d' hd =>
          obtain ⟨available, hx, rfl⟩ := Option.map_eq_some_iff.mp hs
          obtain ⟨n, totalSize, acts, hran⟩ := h.ran _ (List.mem_of_getElem? hp)
          exact h.moved hp ⟨n, totalSize, acts ++ [a], run_append hran (run_cons hd)⟩
            (working_httpStep (joined_run hran).1 hd hx)
        next => cases hs
      next => cases hs
  | ftp i a =>
      simp only [step] at hs
      split at hs
      next d hp =>
        split at hs
        next d' hd =>
          obtain ⟨available, hx, rfl⟩ := Option.map_eq_some_iff.mp hs
          obtain ⟨n, totalSize, acts, hran⟩ := h.ran _ (List.mem_of_getElem? hp)
          exact h.moved hp ⟨n, totalSize, acts ++ [a], run_append hran (run_cons hd)⟩
            (working_ftpStep (awaited_run hran).1 hd hx)
        next => cases hs
      next => cases hs

/-- **Run** of any of them. -/
theorem limiterInv_run (hrun : run step (WorkerLimiter.new maxWorkers) acts = some s) :
    LimiterInv maxWorkers s :=
  run_invariant (fun _ _ _ => limiterInv_step) limiterInv_new hrun

/-- **Workers at work**: whatever the downloads do, and each of them does
    what it can do by itself, the permits that are available and the workers
    at work are together as many as the limiter has permits. -/
theorem workers_within_limit (hrun : run step (WorkerLimiter.new maxWorkers) acts = some s) :
    s.available + inUse working s.parts = permits maxWorkers ∧ ∀ p ∈ s.parts, Ran p :=
  ⟨(limiterInv_run hrun).total, (limiterInv_run hrun).ran⟩

/-- An HTTP download whose worker has the only permit, and an FTP download
    that waits for it. -/
def oneWaits : List Act := [.openHttp 1 1, .openFtp 1 1, .http 0 (.worker 0 .go)]

theorem workers_within_limit_oneWaits :
    ∃ s, run step (WorkerLimiter.new 1) oneWaits = some s ∧
      s.available + inUse working s.parts = permits 1 ∧ ∀ p ∈ s.parts, Ran p := by
  have hany : (run step (WorkerLimiter.new 1) oneWaits).any (fun s =>
      decide (s.available = 0)) = true := by decide
  obtain ⟨s, hrun, -⟩ := run_of_any hany
  exact ⟨s, hrun, workers_within_limit hrun⟩

/-! ## Waiting for a permit -/

/-- **Waiting workers**: a worker that waits for its permit, in whichever
    download, gets it at once if and only if fewer workers are at work than
    there are permits. -/
theorem permit_wait_iff (hrun : run step (WorkerLimiter.new maxWorkers) acts = some s) (i w : Nat) :
    (∀ d, s.parts[i]? = some (.http d) → d.workers w = .permit →
      ((step s (.http i (.worker w .go))).isSome ↔ inUse working s.parts < permits maxWorkers)) ∧
    ∀ d, s.parts[i]? = some (.ftp d) → d.workers w = .permit →
      ((step s (.ftp i (.worker w .go))).isSome ↔ inUse working s.parts < permits maxWorkers) := by
  have htotal := (limiterInv_run hrun).total
  -- the permit is there or it is not
  have hgets : (exchange s.available false true).isSome ↔
      inUse working s.parts < permits maxWorkers := by
    rw [exchange]
    split
    next h0 => exact ⟨fun h => absurd h (by decide), fun h => by omega⟩
    next hpos => exact ⟨fun _ => by omega, fun _ => rfl⟩
  constructor
  · intro d hp hw
    have hd : BlitzDownloader.step d (.worker w .go)
        = some (d.goto w (.top BlitzDownloader.initialSegmentSize)) := by
      show BlitzDownloader.workerStep d w .go = _
      simp only [BlitzDownloader.workerStep, hw]
    have hworkers : (d.goto w (.top BlitzDownloader.initialSegmentSize)).workers w
        = .top BlitzDownloader.initialSegmentSize := Function.update_self ..
    rw [step, hp]
    simp only [hd, Option.isSome_map, httpExchange, hw, hworkers]
    exact hgets
  · intro d hp hw
    have hd : BlitzFtp.step d (.worker w .go) = some (d.goto w .login) := by
      show BlitzFtp.workerStep d w .go = _
      simp only [BlitzFtp.workerStep, hw]
    have hworkers : (d.goto w .login).workers w = .login := Function.update_self ..
    rw [step, hp]
    simp only [hd, Option.isSome_map, ftpExchange, hw, hworkers]
    exact hgets

theorem permit_wait_oneWaits :
    ∃ s, run step (WorkerLimiter.new 1) oneWaits = some s ∧ ∀ d, s.parts[1]? = some (.ftp d) →
      d.workers 0 = .permit →
        ((step s (.ftp 1 (.worker 0 .go))).isSome ↔ inUse working s.parts < permits 1) := by
  have hany : (run step (WorkerLimiter.new 1) oneWaits).any (fun s =>
      decide (s.available = 0)) = true := by decide
  obtain ⟨s, hrun, -⟩ := run_of_any hany
  exact ⟨s, hrun, (permit_wait_iff hrun 1 0).2⟩

/-! ## The end of the downloads -/

/-- The download has returned, and not with the fatal error that leaves its
    workers behind. -/
def Returned : Part → Prop
  | .http d =>
      d.coord = .panicked ∨ ∃ r, d.coord = .returned r ∧ ∀ e, r = .error e → e.isFatal = false
  | .ftp d => ∃ r, d.coord = .returned r

/-- The tasks of the download are over. -/
def Over : Part → Prop
  | .http d => ∀ w, w < d.totalSpawned → (d.workers w).joinResult ≠ none
  | .ftp d => ∀ w, w < d.numConnections → (d.workers w).joinResult ≠ none

/-- A download that has returned is over. -/
theorem over_of_returned (hran : Ran p) (h : Returned p) : Over p := by
  cases p with
  | http d =>
      obtain ⟨n, totalSize, acts, hrun⟩ := hran
      obtain ⟨hbooks, hjoined⟩ := joined_run hrun
      exact fun w hw => hbooks.joined w (hjoined h w hw)
  | ftp d =>
      obtain ⟨n, totalSize, acts, hrun⟩ := hran
      obtain ⟨r, hr⟩ := h
      exact (awaited_run hrun).2 r hr

/-- A download that is over has nobody at work. -/
theorem working_of_over (h : Over p) : working p = 0 := by
  cases p with
  | http d =>
      refine heldBy_eq_zero fun w hw => ?_
      have hover := h w hw
      generalize d.workers w = pc at hover
      cases pc with
      | ended r => rfl
      | panicked l => rfl
      | _ => exact absurd rfl hover
  | ftp d =>
      refine heldBy_eq_zero fun w hw => ?_
      have hover := h w hw
      generalize d.workers w = pc at hover
      cases pc with
      | ended r => rfl
      | panicked l => rfl
      | _ => exact absurd rfl hover

/-- **No permit is lost**: once every download has returned, whether with
    `Ok(())`, an error or a panic, and the tasks of those with a fatal error
    are over, every permit is available again. -/
theorem permits_come_back (hrun : run step (WorkerLimiter.new maxWorkers) acts = some s)
    (hover : ∀ p ∈ s.parts, Returned p ∨ Over p) : s.available = permits maxWorkers := by
  have h := limiterInv_run hrun
  have hidle : inUse working s.parts = 0 := by
    refine inUse_eq_zero fun p hp => working_of_over ?_
    rcases hover p hp with hret | hover
    · exact over_of_returned (h.ran p hp) hret
    · exact hover
  have htotal := h.total
  omega

/-- One permit for three downloads of a byte: the worker of the first one
    panics with it, and the other two, over FTP and HTTP, get through. -/
def onePanics : List Act :=
  [.openHttp 1 1, .openFtp 1 1, .openHttp 1 1, .http 0 (.worker 0 .go), .http 0 (.worker 0 .go),
    .http 0 (.worker 0 (.panic false))] ++
    BlitzFtpResults.oneByte.map (.ftp 1) ++ BlitzDownloaderResults.oneByte.map (.http 2) ++
    [.http 0 (.join 0), .http 0 .loadActive, .http 0 .joinNone, .http 0 .joinNone, .http 0 .check]

/-- The download has returned, with `Ok(())` or for lack of workers. -/
def hasReturned : Part → Bool
  | .http d => decide (d.coord = .returned (.ok ()) ∨ d.coord = .returned (.error .bufferFailed))
  | .ftp d => decide (d.coord = .returned (.ok ()))

/-- The test of the example is one of `Returned`. -/
theorem returned_of_hasReturned (h : hasReturned p = true) : Returned p := by
  cases p with
  | http d =>
      rcases of_decide_eq_true h with hok | hfailed
      · exact Or.inr ⟨_, hok, nofun⟩
      · exact Or.inr ⟨_, hfailed, by rintro e ⟨⟩; rfl⟩
  | ftp d => exact ⟨_, of_decide_eq_true h⟩

theorem permits_come_back_onePanics :
    ∃ s, run step (WorkerLimiter.new 1) onePanics = some s ∧ s.available = permits 1 := by
  have hany : (run step (WorkerLimiter.new 1) onePanics).any (fun s => s.parts.all hasReturned)
      = true := by decide
  obtain ⟨s, hrun, hall⟩ := run_of_any hany
  exact ⟨s, hrun, permits_come_back hrun fun p hp =>
    Or.inl (returned_of_hasReturned (List.all_eq_true.mp hall p hp))⟩

end BlitzWorkerPermits
