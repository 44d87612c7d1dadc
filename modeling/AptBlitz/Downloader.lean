import AptBlitz.Transfers

/-! # `download_multithreaded`

    The HTTP downloader: `download_worker` for each worker, the task around
    it that `spawn_one_worker` makes, and the coordinator.  A step is what
    one of them does between two points at which another may get its turn:
    one access to the buffer, to the cancellation token or to the counter of
    active workers, or one answer of the world outside (a response, a piece
    of its body, a timeout, a time measurement).

    A worker may panic wherever it runs; a panic under the lock of the
    segments vector poisons it.  Sleeping between retries takes time only
    and is no step. -/

namespace BlitzDownloader

open BlitzBuffer SegmentsBuffer BlitzTransfers

/-! ## Constants, errors, checks -/

/-- `MIN_SEGMENT_SIZE`. -/
def minSegmentSize : Nat := 64 * 1024
/-- `MAX_SEGMENT_SIZE`. -/
def maxSegmentSize : Nat := 4 * 1024 * 1024
/-- `INITIAL_SEGMENT_SIZE`. -/
def initialSegmentSize : Nat := 1024 * 1024
/-- `INITIAL_WORKER_COUNT`. -/
def initialWorkerCount : Nat := 1
/-- `MAX_SEGMENT_RETRIES`. -/
def maxSegmentRetries : Nat := 3

/-- What `is_transient_error` asks a `reqwest::Error`. -/
structure ReqwestError where
  isConnect : Bool
  isBody : Bool
  isTimeout : Bool
  isDecode : Bool
  isRequest : Bool
  deriving DecidableEq, Repr

/-- `is_transient_error`. -/
def isTransientError (e : ReqwestError) : Bool :=
  e.isConnect || e.isBody || e.isTimeout || e.isDecode || e.isRequest

/-- `next_segment_size`; `preferred` is `(speed * TARGET_SEGMENT_TIME_SECS)
    as u64`, or `none` for `speed <= 0.0`. -/
def nextSegmentSize (preferred : Option Nat) : Nat :=
  match preferred with
  | none => initialSegmentSize
  | some p => max minSegmentSize (min p maxSegmentSize)

/-- `DownloadError`. -/
inductive DownloadError where
  | reqwest (e : ReqwestError)
  | httpStatus (status : Nat)
  | io (e : IoError)
  | rangeUnsupported
  | etagChanged
  | bufferFailed
  | cancelled
  deriving DecidableEq, Repr

/-- `DownloadError::is_fatal`. -/
def DownloadError.isFatal : DownloadError → Bool
  | .rangeUnsupported => true
  | .etagChanged => true
  | _ => false

/-- The head of a response. -/
structure Response where
  status : Nat
  headers : List (String × String)
  deriving DecidableEq, Repr

/-- The tests of the response's status; `none` when the body is accepted for
    the segment. -/
def checkStatus (totalSize start «end» status : Nat) : Option DownloadError :=
  if status = 412 then some .etagChanged
  else if status ≠ 206 ∧ status ≠ 200 then some (.httpStatus status)
  else if status = 200 then
    if start = 0 ∧ «end» = totalSize then none else some .rangeUnsupported
  else none

/-! ## The worker -/

/-- The locals of a turn of `download_worker`'s loop: `preferred_size`, what
    `claim_range` returned, and the state of the attempts. -/
structure Claim where
  preferredSize : Nat
  id : Nat
  start : Nat
  «end» : Nat
  attempt : Nat
  lastErr : Option DownloadError

/-- `last_err = Some(err); continue`. -/
def Claim.retry (c : Claim) (err : DownloadError) : Claim :=
  { c with attempt := c.attempt + 1, lastErr := some err }

/-- What a worker does next. -/
inductive Pc where
  | unspawned
  /-- `limiter.acquire()` -/
  | permit
  /-- `cancel.is_cancelled()`, at the head of the loop -/
  | top (preferredSize : Nat)
  /-- `claim_range`, up to its `compare_exchange` -/
  | claim (preferredSize : Nat)
  /-- `claim_range`, its push -/
  | push (preferredSize start stop : Nat)
  /-- the head of the `for attempt` loop -/
  | attempt (c : Claim)
  /-- the request is out -/
  | send (c : Claim)
  /-- waiting for the next piece of the body -/
  | body (c : Claim) (fileOffset : Nat)
  /-- `while remaining > 0`, with what is left of the chunk -/
  | chunk (c : Claim) (fileOffset : Nat) (rest : Bytes)
  /-- `mark_ready`, under the lock -/
  | markState (c : Claim)
  /-- `mark_ready`, the counter -/
  | markCount (c : Claim)
  /-- `segment_ready_tx.send(())` -/
  | notify (c : Claim)
  /-- the new `preferred_size` -/
  | measure (c : Claim)
  /-- `download_worker` has returned; `active.fetch_sub(1)` -/
  | finish (result : Except DownloadError Unit)
  | ended (result : Except DownloadError Unit)
  /-- the task panicked; with the range it had taken and not pushed -/
  | panicked (lost : Option (Nat × Nat))

/-- The code behind the loop over the body. -/
def bodyOver (c : Claim) (fileOffset : Nat) : Pc :=
  let received := fileOffset - c.start
  let size := c.end - c.start
  if received ≠ size then
    let err := DownloadError.io
      ⟨.unexpectedEof, s!"received {received} bytes, expected {size}"⟩
    if c.attempt < maxSegmentRetries then .attempt (c.retry err)
    else .finish (.error err)
  else .markState c

/-- What `stream.next()` under its timeout brings. -/
inductive BodyEvent where
  | eof
  | error (e : ReqwestError)
  | chunk (data : Bytes)
  | elapsed

/-- What the world outside adds to a worker's step. -/
inductive Input where
  | go
  | sent (result : Except ReqwestError Response)
  | stream (event : BodyEvent)
  /-- the answer of `wait_consume`, and of the `write_at` calls -/
  | write (consumed : Bool) (results : List (Except IoError Nat))
  /-- `none` for `elapsed <= 0.0`, else the argument of `next_segment_size` -/
  | measured (speed : Option (Option Nat))
  /-- a panic; under the lock, where the step takes it -/
  | panic (inLock : Bool)

/-! ## The coordinator and the whole -/

/-- Where the coordinator is. -/
inductive Coord where
  /-- the `select!` of the first loop -/
  | select
  /-- `active.load()`, after a join in the first loop -/
  | loadActive
  /-- the second loop -/
  | drain
  /-- `all_completed()` -/
  | check
  | returned (result : Except DownloadError Unit)
  | panicked
  deriving DecidableEq

/-- The download: its buffer, its workers, its coordinator, and the log of what
    has happened. -/
structure Download where
  numConnections : Nat
  buf : SegmentsBuffer
  workers : Nat → Pc
  /-- the workers `join_next` has returned -/
  joined : Nat → Bool
  totalSpawned : Nat
  coord : Coord
  active : Nat
  /-- messages sent on `ready_tx` and not received -/
  readyMsgs : Nat
  cancelled : Bool
  /-- the lock of the segments vector is poisoned -/
  poisoned : Bool
  log : List (Event Response)

namespace Download

/-- Worker `w` goes on to `pc`. -/
def goto (d : Download) (w : Nat) (pc : Pc) : Download :=
  { d with workers := Function.update d.workers w pc }

/-- An event of worker `w` with segment `id`. -/
def note (d : Download) (w id : Nat) (what : What Response) : Download :=
  { d with log := d.log ++ [⟨w, id, what⟩] }

end Download

/-- Just before the first loop: `num_connections.min(INITIAL_WORKER_COUNT)`
    workers have been spawned. -/
def start (numConnections totalSize : Nat) (file : Bytes) : Download where
  numConnections := numConnections
  buf := new totalSize file
  workers := fun w => if w < min numConnections initialWorkerCount then .permit else .unspawned
  joined := fun _ => false
  totalSpawned := min numConnections initialWorkerCount
  coord := .select
  active := min numConnections initialWorkerCount
  readyMsgs := 0
  cancelled := false
  poisoned := false
  log := []

open Download

/-- `return Err(e)` or `break; Ok(())` out of `download_worker`. -/
def finish (d : Download) (w : Nat) (result : Except DownloadError Unit) : Download :=
  d.goto w (.finish result)

/-- A piece of the body, or its end. -/
def streamStep (d : Download) (w : Nat) (c : Claim) (fileOffset : Nat) :
    BodyEvent → Download
  | .eof => d.goto w (bodyOver c fileOffset)
  | .error e =>
      if isTransientError e && c.attempt < maxSegmentRetries then
        d.goto w (.attempt (c.retry (.reqwest e)))
      else finish d w (.error (.reqwest e))
  | .chunk data =>
      if d.cancelled then finish d w (.error .cancelled)
      else (d.goto w (.chunk c fileOffset data)).note w c.id (.received data)
  | .elapsed =>
      let err := DownloadError.io ⟨.timedOut, "stream read timeout after 30s"⟩
      if c.attempt < maxSegmentRetries then d.goto w (.attempt (c.retry err))
      else finish d w (.error err)

/-- A turn of the `while remaining > 0` loop that writes. -/
def writeStep (d : Download) (w : Nat) (c : Claim) (fileOffset : Nat) (rest : Bytes)
    (consumed : Bool) (results : List (Except IoError Nat)) : Option Download :=
  let toWrite := min rest.length (c.end - fileOffset)
  if consumed then
    match d.buf.writeData fileOffset (rest.take toWrite) results with
    | none => none
    | some (.error e, b) => some (finish { d with buf := b } w (.error (.io e)))
    | some (.ok _, b) =>
        some ((({ d with buf := b } : Download).goto w
          (.chunk c (fileOffset + toWrite) (rest.drop toWrite))).note w c.id
          (.wrote fileOffset (rest.take toWrite)))
  else if d.cancelled then some (finish d w (.error .cancelled))
  else none

/-- Where a panic leaves the worker and the lock: between its two steps
    `claim_range` has nothing that can panic but what it does under the lock,
    and taking a lock that is poisoned already. -/
def panicStep (d : Download) (w : Nat) (inLock : Bool) : Option Download :=
  match d.workers w with
  | .unspawned => none
  | .finish _ => none
  | .ended _ => none
  | .panicked _ => none
  | .push _ a z => some ({ d with poisoned := true }.goto w (.panicked (some (a, z))))
  | .markState _ => some ({ d with poisoned := d.poisoned || inLock }.goto w (.panicked none))
  | _ => some (d.goto w (.panicked none))

/-- One step of worker `w`. -/
def workerStep (d : Download) (w : Nat) (input : Input) : Option Download :=
  match d.workers w, input with
  | _, .panic inLock => panicStep d w inLock
  | .permit, .go => some (d.goto w (.top initialSegmentSize))
  | .top p, .go =>
      if d.cancelled then some (finish d w (.error .cancelled))
      else some (d.goto w (.claim p))
  | .claim p, .go =>
      match d.buf.claimCas p with
      | (b, none) => some (finish { d with buf := b } w (.ok ()))
      | (b, some r) => some ({ d with buf := b }.goto w (.push p r.1 r.2))
  | .push p a z, .go =>
      if d.poisoned then none
      else
        let (b, id) := d.buf.claimPush (a, z)
        some ((({ d with buf := b } : Download).goto w (.attempt ⟨p, id, a, z, 0, none⟩)).note
          w id (.claimed a z))
  | .attempt c, .go =>
      if c.attempt > maxSegmentRetries then
        some (finish d w (.error (c.lastErr.getD .bufferFailed)))
      else if d.cancelled then some (finish d w (.error .cancelled))
      else some (d.goto w (.send c))
  | .send c, .sent (.error e) =>
      if isTransientError e && c.attempt < maxSegmentRetries then
        some (d.goto w (.attempt (c.retry (.reqwest e))))
      else some (finish d w (.error (.reqwest e)))
  | .send c, .sent (.ok response) =>
      match checkStatus d.buf.totalSize c.start c.end response.status with
      | some e => some (finish d w (.error e))
      | none => some ((d.goto w (.body c c.start)).note w c.id (.opened response))
  | .body c fileOffset, .stream event => some (streamStep d w c fileOffset event)
  | .chunk c fileOffset rest, .go =>
      if rest = [] ∨ c.end - fileOffset = 0 then
        if fileOffset ≥ c.end then some (d.goto w (bodyOver c fileOffset))
        else some (d.goto w (.body c fileOffset))
      else none
  | .chunk c fileOffset rest, .write consumed results =>
      if rest = [] ∨ c.end - fileOffset = 0 then none
      else writeStep d w c fileOffset rest consumed results
  | .markState c, .go =>
      if d.poisoned then none
      else if c.id < d.buf.segments.length then
        some ((({ d with buf := d.buf.setReady c.id } : Download).goto w (.markCount c)).note
          w c.id .ready)
      else some (d.goto w (.notify c))
  | .markCount c, .go => some ({ d with buf := d.buf.addReady }.goto w (.notify c))
  | .notify c, .go => some ({ d with readyMsgs := d.readyMsgs + 1 }.goto w (.measure c))
  | .measure c, .measured none => some (d.goto w (.top c.preferredSize))
  | .measure _, .measured (some speed) => some (d.goto w (.top (nextSegmentSize speed)))
  | .finish result, .go => some ({ d with active := d.active - 1 }.goto w (.ended result))
  | _, _ => none

/-! ## The coordinator's steps -/

/-- `spawn_one_worker(total_spawned, ..)`; `total_spawned += 1`. -/
def spawnOneWorker (d : Download) : Download :=
  { d.goto d.totalSpawned .permit with
    active := d.active + 1
    totalSpawned := d.totalSpawned + 1 }

/-- What a task that is over left for `join_next`: `none` inside for a
    panic. -/
def Pc.joinResult : Pc → Option (Option (Except DownloadError Unit))
  | .ended result => some (some result)
  | .panicked _ => some none
  | _ => none

/-- `join_next` returns worker `w`. -/
def joinStep (d : Download) (w : Nat) : Option Download :=
  if w < d.totalSpawned ∧ d.joined w = false then
    match (d.workers w).joinResult with
    | none => none
    | some result =>
        let d := { d with joined := Function.update d.joined w true }
        match d.coord with
        | .select =>
            match result with
            | some (.error e) =>
                if e.isFatal then
                  some { d with cancelled := true, coord := .returned (.error e) }
                else some { d with coord := .loadActive }
            | _ => some { d with coord := .loadActive }
        | .drain => some d
        | _ => none
  else none

/-- Whose step it is. -/
inductive Act where
  | worker (w : Nat) (input : Input)
  /-- `ready_rx.recv()` -/
  | recvReady
  /-- `join_next()` returns a worker -/
  | join (w : Nat)
  /-- `join_next()` returns `None` -/
  | joinNone
  | loadActive
  /-- `all_completed()` -/
  | check

/-- One step of the download. -/
def step (d : Download) : Act → Option Download
  | .worker w input => workerStep d w input
  | .recvReady =>
      if d.coord = .select ∧ 0 < d.readyMsgs then
        let d := { d with readyMsgs := d.readyMsgs - 1 }
        if d.totalSpawned < d.numConnections then some (spawnOneWorker d) else some d
      else none
  | .join w => joinStep d w
  | .joinNone =>
      if (List.range d.totalSpawned).all d.joined then
        match d.coord with
        | .select => some { d with coord := .drain }
        | .drain => some { d with coord := .check }
        | _ => none
      else none
  | .loadActive =>
      if d.coord = .loadActive then
        if d.active = 0 then some { d with coord := .drain }
        else some { d with coord := .select }
      else none
  | .check =>
      if d.coord = .check then
        if d.buf.allAssigned && d.poisoned then some { d with coord := .panicked }
        else if d.buf.allCompleted then some { d with coord := .returned (.ok ()) }
        else some { d with cancelled := true, coord := .returned (.error .bufferFailed) }
      else none

end BlitzDownloader
