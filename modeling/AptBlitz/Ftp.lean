import AptBlitz.Downloader
import AptBlitz.Pasv

/-! # `download_ftp_multithreaded`

    The FTP downloader: `ftp_worker` with `download_range` inlined, the task
    around it, and the coordinator that awaits the tasks in turn.  A step is
    one access to what is shared, or one answer of the world outside: what
    reading a reply on the control connection gave, or what a read of the
    data connection brought.

    `connect_and_login` is one answer; the replies to its commands are not
    looked at.  A worker may panic wherever it runs. -/

namespace BlitzFtp

open BlitzBuffer SegmentsBuffer BlitzTransfers RustText BlitzPasv
open BlitzDownloader (minSegmentSize maxSegmentSize)

/-- `FtpDownloadError`. -/
inductive FtpDownloadError where
  | io (e : IoError)
  | ftp (msg : Text)
  | bufferFailed
  | cancelled
  deriving DecidableEq

/-- The value of `preferred_size`, which is never zero. -/
abbrev PreferredSize := { p : Nat // 0 < p }

/-- `let mut preferred_size = 1024u64 * 1024`. -/
def initialPreferred : PreferredSize := ⟨1024 * 1024, by decide⟩

/-- `preferred.clamp(MIN_SEGMENT_SIZE, MAX_SEGMENT_SIZE)`. -/
def clampPreferred (preferred : Nat) : PreferredSize :=
  ⟨max minSegmentSize (min preferred maxSegmentSize),
    lt_of_lt_of_le (by decide) (le_max_left _ _)⟩

/-- What `claim_range` returned, with the `preferred_size` it was asked. -/
structure Claim where
  preferredSize : PreferredSize
  id : Nat
  start : Nat
  «end» : Nat

/-- A data connection: where it goes, and the reply to `REST` before it,
    where one was sent. -/
structure DataConnection where
  addr : Text × Nat
  rest : Option Text
  deriving DecidableEq

/-! ## The worker -/

/-- What a worker does next. -/
inductive Pc where
  | unspawned
  /-- `limiter.acquire()` -/
  | permit
  /-- `connect_and_login` -/
  | login
  /-- `cancel.is_cancelled()`, at the head of the loop -/
  | top (preferredSize : PreferredSize)
  /-- `claim_range`, up to its `compare_exchange` -/
  | claim (preferredSize : PreferredSize)
  /-- `claim_range`, its push -/
  | push (preferredSize : PreferredSize) (start stop : Nat)
  /-- `PASV` has been sent -/
  | pasv (c : Claim)
  /-- `REST` has been sent -/
  | rest (c : Claim) (addr : Text × Nat)
  /-- `RETR` is being sent -/
  | retr (c : Claim) (conn : DataConnection)
  /-- the data connection is being opened -/
  | connect (c : Claim) (conn : DataConnection)
  /-- waiting for the 150 -/
  | reply150 (c : Claim)
  /-- `data.read` -/
  | read (c : Claim) (written : Nat)
  /-- `write_data` with what was read -/
  | write (c : Claim) (written : Nat) (data : Bytes)
  /-- waiting for the 226 -/
  | reply226 (c : Claim)
  /-- `mark_ready`, under the lock -/
  | markState (c : Claim)
  /-- `mark_ready`, the counter -/
  | markCount (c : Claim)
  /-- the new `preferred_size` -/
  | measure (c : Claim)
  /-- `QUIT` has been sent -/
  | quit
  | ended (result : Except FtpDownloadError Unit)
  /-- the task panicked; with the range it had taken and not pushed -/
  | panicked (lost : Option (Nat × Nat))

/-- What the world outside adds to a worker's step. -/
inductive Input where
  | go
  /-- what sending a command and reading its reply gave -/
  | reply (result : Except Text Text)
  /-- what opening a connection, or only sending, gave -/
  | sent (result : Except Text Unit)
  /-- `data.read`: the bytes, none of them at the end of the connection -/
  | read (result : Except IoError Bytes)
  /-- the answer of `try_consume`, which nothing looks at, and those of the
      `write_at` calls -/
  | write (consumed : Bool) (results : List (Except IoError Nat))
  /-- `none` for `elapsed <= 0.0`, else `speed * TARGET_SEGMENT_TIME_SECS` -/
  | measured (preferred : Option Nat)
  /-- a panic; under the lock, where the step takes it -/
  | panic (inLock : Bool)

/-- After `parse_pasv`: `REST` for a segment that does not start the file. -/
def startRange (c : Claim) (addr : Text × Nat) : Pc :=
  if c.start > 0 then .rest c addr else .retr c ⟨addr, none⟩

/-- The head of `while written < size`. -/
def readLoop (c : Claim) (written : Nat) : Pc :=
  if written < c.end - c.start then .read c written else .reply226 c

/-! ## The coordinator and the whole -/

/-- Where the coordinator is. -/
inductive Coord where
  /-- `handle.await` for worker `i`, with the errors so far -/
  | awaiting (i : Nat) (errors : List FtpDownloadError)
  | returned (result : Except FtpDownloadError Unit)
  deriving DecidableEq

/-- The download: its buffer, its workers, its coordinator, and the log of what
    has happened. -/
structure Download where
  numConnections : Nat
  buf : SegmentsBuffer
  workers : Nat → Pc
  coord : Coord
  cancelled : Bool
  /-- the lock of the segments vector is poisoned -/
  poisoned : Bool
  log : List (Event DataConnection)

namespace Download

/-- Worker `w` goes on to `pc`. -/
def goto (d : Download) (w : Nat) (pc : Pc) : Download :=
  { d with workers := Function.update d.workers w pc }

/-- An event of worker `w` with segment `id`. -/
def note (d : Download) (w id : Nat) (what : What DataConnection) : Download :=
  { d with log := d.log ++ [⟨w, id, what⟩] }

end Download

/-- The workers `0..num_connections` have been spawned. -/
def start (numConnections totalSize : Nat) (file : Bytes) : Download where
  numConnections := numConnections
  buf := new totalSize file
  workers := fun w => if w < numConnections then .permit else .unspawned
  coord := .awaiting 0 []
  cancelled := false
  poisoned := false
  log := []

open Download

/-- `return Err(e)` out of `ftp_worker`. -/
def fail (d : Download) (w : Nat) (e : FtpDownloadError) : Download :=
  d.goto w (.ended (.error e))

/-- What `data.read` into `buf[..to_read]` brings. -/
def readStep (d : Download) (w : Nat) (c : Claim) (written : Nat) :
    Except IoError Bytes → Option Download
  | .error e => some (fail d w (.io e))
  | .ok data =>
      let toRead := min 65536 (c.end - c.start - written)
      if toRead < data.length then none
      else if data.length = 0 then some (d.goto w (.reply226 c))
      else some ((d.goto w (.write c written data)).note w c.id (.received data))

/-- `write_data` and `written += n`. -/
def writeStep (d : Download) (w : Nat) (c : Claim) (written : Nat) (data : Bytes)
    (results : List (Except IoError Nat)) : Option Download :=
  match d.buf.writeData (c.start + written) data results with
  | none => none
  | some (.error _, b) => some (fail { d with buf := b } w .bufferFailed)
  | some (.ok _, b) =>
      some ((({ d with buf := b } : Download).goto w (readLoop c (written + data.length))).note
        w c.id (.wrote (c.start + written) data))

/-- Where a panic leaves the worker and the lock. -/
def panicStep (d : Download) (w : Nat) (inLock : Bool) : Option Download :=
  match d.workers w with
  | .unspawned => none
  | .ended _ => none
  | .panicked _ => none
  | .push _ a z => some ({ d with poisoned := true }.goto w (.panicked (some (a, z))))
  | .markState _ => some ({ d with poisoned := d.poisoned || inLock }.goto w (.panicked none))
  | _ => some (d.goto w (.panicked none))

/-- One step of worker `w`. -/
def workerStep (d : Download) (w : Nat) (input : Input) : Option Download :=
  match d.workers w, input with
  | _, .panic inLock => panicStep d w inLock
  | .permit, .go => some (d.goto w .login)
  | .login, .sent (.error msg) => some (fail d w (.ftp msg))
  | .login, .sent (.ok _) => some (d.goto w (.top initialPreferred))
  | .top p, .go =>
      if d.cancelled then some (fail d w .cancelled) else some (d.goto w (.claim p))
  | .claim p, .go =>
      match d.buf.claimCas p with
      | (b, none) => some ({ d with buf := b }.goto w .quit)
      | (b, some r) => some ({ d with buf := b }.goto w (.push p r.1 r.2))
  | .push p a z, .go =>
      if d.poisoned then none
      else
        let (b, id) := d.buf.claimPush (a, z)
        some ((({ d with buf := b } : Download).goto w (.pasv ⟨p, id, a, z⟩)).note
          w id (.claimed a z))
  | .pasv _, .reply (.error msg) => some (fail d w (.ftp msg))
  | .pasv c, .reply (.ok resp) =>
      match parsePasv resp with
      | .error msg => some (fail d w (.ftp msg))
      | .ok addr => some (d.goto w (startRange c addr))
  | .rest _ _, .reply (.error msg) => some (fail d w (.ftp msg))
  | .rest c addr, .reply (.ok resp) => some (d.goto w (.retr c ⟨addr, some resp⟩))
  | .retr _ _, .sent (.error msg) =>
      some (fail d w (.ftp ("RETR write failed: ".toList ++ msg)))
  | .retr c conn, .sent (.ok _) => some (d.goto w (.connect c conn))
  | .connect _ _, .sent (.error msg) =>
      some (fail d w (.ftp ("data connect failed: ".toList ++ msg)))
  | .connect c conn, .sent (.ok _) =>
      some ((d.goto w (.reply150 c)).note w c.id (.opened conn))
  | .reply150 _, .reply (.error msg) => some (fail d w (.ftp msg))
  | .reply150 c, .reply (.ok _) => some (d.goto w (readLoop c 0))
  | .read c written, .read result => readStep d w c written result
  | .write c written data, .write _ results => writeStep d w c written data results
  | .reply226 c, .reply _ => some (d.goto w (.markState c))
  | .markState c, .go =>
      if d.poisoned then none
      else if c.id < d.buf.segments.length then
        some ((({ d with buf := d.buf.setReady c.id } : Download).goto w (.markCount c)).note
          w c.id .ready)
      else some (d.goto w (.measure c))
  | .markCount c, .go => some ({ d with buf := d.buf.addReady }.goto w (.measure c))
  | .measure c, .measured none => some (d.goto w (.top c.preferredSize))
  | .measure _, .measured (some preferred) => some (d.goto w (.top (clampPreferred preferred)))
  | .quit, .reply _ => some (d.goto w (.ended (.ok ())))
  | _, _ => none

/-- What a task that is over left for its handle: `none` inside for a
    panic. -/
def Pc.joinResult : Pc → Option (Option (Except FtpDownloadError Unit))
  | .ended result => some (some result)
  | .panicked _ => some none
  | _ => none

/-- Whose step it is. -/
inductive Act where
  | worker (w : Nat) (input : Input)
  /-- the coordinator: the next `handle.await` returns, or there is none left -/
  | await

/-- The coordinator's step. -/
def awaitStep (d : Download) : Option Download :=
  match d.coord with
  | .returned _ => none
  | .awaiting i errors =>
      if i < d.numConnections then
        match (d.workers i).joinResult with
        | none => none
        | some (some (.ok _)) => some { d with coord := .awaiting (i + 1) errors }
        | some (some (.error .cancelled)) => some { d with coord := .awaiting (i + 1) errors }
        | some (some (.error e)) =>
            some { d with cancelled := true, coord := .awaiting (i + 1) (errors ++ [e]) }
        | some none =>
            some { d with
              cancelled := true
              coord := .awaiting (i + 1) (errors ++ [.bufferFailed]) }
      else if errors = [] then some { d with coord := .returned (.ok ()) }
      else some { d with
        buf := d.buf.setFailed
        coord := .returned (.error .bufferFailed) }

/-- One step of the download. -/
def step (d : Download) : Act → Option Download
  | .worker w input => workerStep d w input
  | .await => awaitStep d

end BlitzFtp
