import AptBlitz.Claims

/-! # `make_buffer_stream`

    The body stream of a download in progress: a cursor over the segments
    vector that yields the bytes of ready segments in index order while the
    workers still claim and fill segments.

    Every call the closure makes on the buffer (`is_failed`, `num_segments`,
    `all_completed`, `is_ready`, `segment_start`, `segment_end`, `read_data`)
    is a step of its own, so anything the workers do may come between two of
    them.  The waits for a notification last 100 ms at most and end in a new
    turn of the loop; they are a step that does nothing.  Claims are whole
    here. -/

namespace BlitzStream

open BlitzBuffer SegmentsBuffer BlitzClaims Runs

/-- What the closure does next. -/
inductive Pc where
  /-- `is_failed()`, at the head of the loop -/
  | top
  /-- `current_segment >= num_segments()` -/
  | cmpLen
  /-- `num_segments() == 0` -/
  | emptyTest
  /-- `all_completed()` -/
  | completedTest
  /-- `is_ready(current_segment)` -/
  | readyTest
  | segStart
  | segEnd (segStart : Nat)
  /-- `read_data(seg_pos, remaining)` -/
  | read (segPos remaining : Nat)
  /-- the `timeout` around `notify_rx.recv()` -/
  | waiting
  /-- the closure returned `None` -/
  | done
  deriving DecidableEq, Repr

/-- `StreamState`, with the items yielded so far. -/
structure StreamState where
  currentSegment : Nat
  offsetInSegment : Nat
  errored : Bool
  pc : Pc
  yielded : List (Except String Bytes)
  deriving DecidableEq

namespace StreamState

/-- `StreamState` as `make_buffer_stream` makes it. -/
def initial : StreamState where
  currentSegment := 0
  offsetInSegment := 0
  errored := false
  pc := .top
  yielded := []

/-- The concatenation of the chunks yielded so far. -/
def sent (st : StreamState) : Bytes :=
  st.yielded.flatMap fun item =>
    match item with
    | .ok bytes => bytes
    | .error _ => []

/-- An error was yielded. -/
def Failed (st : StreamState) : Prop :=
  ∃ msg, Except.error msg ∈ st.yielded

/-- An item `Err("download failed")`, the first time. -/
def yieldError (st : StreamState) : StreamState :=
  { st with errored := true, yielded := st.yielded ++ [.error "download failed"] }

/-- An item `Ok(bytes)`; the cursor goes on by its length. -/
def yieldChunk (st : StreamState) (bytes : Bytes) : StreamState :=
  { st with
    offsetInSegment := st.offsetInSegment + bytes.length
    pc := .top
    yielded := st.yielded ++ [.ok bytes] }

/-- The cursor goes on to the next segment. -/
def nextSegment (st : StreamState) : StreamState :=
  { st with currentSegment := st.currentSegment + 1, offsetInSegment := 0, pc := .top }

end StreamState

open StreamState

/-- One step of the closure: the pending call, and what the closure does with
    the answer.  `readAt` is what `read_at` returns, when that is the call. -/
def poll (b : SegmentsBuffer) (st : StreamState) (readAt : Except IoError Nat) :
    Option StreamState :=
  match st.pc with
  | .top =>
      if b.isFailed then
        if st.errored then some { st with pc := .done }
        else some st.yieldError
      else some { st with pc := .cmpLen }
  | .cmpLen =>
      if st.currentSegment ≥ b.numSegments then some { st with pc := .emptyTest }
      else some { st with pc := .readyTest }
  | .emptyTest =>
      if b.numSegments = 0 then some { st with pc := .waiting }
      else some { st with pc := .completedTest }
  | .completedTest =>
      if b.allCompleted then some { st with pc := .done }
      else some { st with pc := .waiting }
  | .readyTest =>
      if b.isReady st.currentSegment then some { st with pc := .segStart }
      else some { st with pc := .waiting }
  | .segStart => some { st with pc := .segEnd (b.segmentStart st.currentSegment) }
  | .segEnd segStart =>
      let segEnd := b.segmentEnd st.currentSegment
      let segPos := segStart + st.offsetInSegment
      if segPos ≥ segEnd then some st.nextSegment
      else some { st with pc := .read segPos (segEnd - segPos) }
  | .read segPos remaining =>
      if b.ReadAtMayReturn segPos remaining readAt then
        match b.readData segPos remaining readAt with
        | some bytes =>
            if bytes.isEmpty then some st.nextSegment
            else some (st.yieldChunk bytes)
        | none => some st.nextSegment
      else none
  | .waiting => some { st with pc := .top }
  | .done => none

/-- A stream and the buffer it reads, with the buffer's other users. -/
structure Sys where
  shared : Shared
  stream : StreamState

/-- The steps of the stream and of its environment. -/
inductive Act where
  /-- thread `w` calls `claim_range` -/
  | claim (w preferredSize : Nat)
  /-- any other step of thread `w` -/
  | worker (w : Nat) (op : Op)
  | poll (readAt : Except IoError Nat)

/-- One step of the stream or of its environment. -/
def sysStep (s : Sys) : Act → Option Sys
  | .claim w p => (claimWhole s.shared w p).map fun sh => { s with shared := sh }
  | .worker _ (.cas _) => none
  | .worker _ .push => none
  | .worker w op => (threadStep s.shared w op).map fun sh => { s with shared := sh }
  | .poll readAt =>
      (poll s.shared.buf s.stream readAt).map fun st => { s with stream := st }

/-- A stream just made on the buffer. -/
def openStream (sh : Shared) : Sys := ⟨sh, initial⟩

/-- A step of the system is a whole claim, another step of a thread, or a
    step of the stream. -/
inductive SysStepped (s : Sys) : Act → Sys → Prop
  | claim {w p sh} (h : Claimed s.shared w sh) :
      SysStepped s (.claim w p) { s with shared := sh }
  | worker {w op sh} (h : Stepped s.shared w op sh) (hcas : ∀ p, op ≠ .cas p)
      (hpush : op ≠ .push) : SysStepped s (.worker w op) { s with shared := sh }
  | poll {r st} (h : BlitzStream.poll s.shared.buf s.stream r = some st) :
      SysStepped s (.poll r) { s with stream := st }

/-- `sysStep` does nothing but this. -/
theorem sysStepped_of_sysStep {s s' : Sys} {a : Act} (h : sysStep s a = some s') :
    SysStepped s a s' := by
  cases a with
  | claim w p =>
      obtain ⟨sh, hsh, heq⟩ := Option.map_eq_some_iff.mp h
      subst heq
      exact .claim (claimed_of_claimWhole hsh)
  | worker w op =>
      have hop : (∀ p, op ≠ .cas p) ∧ op ≠ .push := by
        cases op with
        | cas p => exact nomatch h
        | push => exact nomatch h
        | write off data => exact ⟨nofun, nofun⟩
        | setReady => exact ⟨nofun, nofun⟩
        | addReady => exact ⟨nofun, nofun⟩
        | abandon => exact ⟨nofun, nofun⟩
        | setFailed => exact ⟨nofun, nofun⟩
      have hw : (threadStep s.shared w op).map (fun sh => { s with shared := sh })
          = some s' := by
        cases op with
        | cas p => exact absurd rfl (hop.1 p)
        | push => exact absurd rfl hop.2
        | write off data => exact h
        | setReady => exact h
        | addReady => exact h
        | abandon => exact h
        | setFailed => exact h
      obtain ⟨sh, hsh, heq⟩ := Option.map_eq_some_iff.mp hw
      subst heq
      exact .worker (stepped_of_threadStep hsh) hop.1 hop.2
  | poll r =>
      obtain ⟨st, hst, heq⟩ := Option.map_eq_some_iff.mp h
      subst heq
      exact .poll hst

/-! ## What a step of the closure can be -/

/-- The steps that neither send nor move the cursor: where they lead, and
    what they have found out. -/
inductive Tested (b : SegmentsBuffer) (st : StreamState) : Pc → Prop
  | alive (h : st.pc = .top) : Tested b st .cmpLen
  | failedTwice (h : st.pc = .top) (he : st.errored = true) : Tested b st .done
  | beyond (h : st.pc = .cmpLen) (hlen : b.segments.length ≤ st.currentSegment) :
      Tested b st .emptyTest
  | listed (h : st.pc = .cmpLen) : Tested b st .readyTest
  | someSegment (h : st.pc = .emptyTest) : Tested b st .completedTest
  | completed (h : st.pc = .completedTest) (hd : b.allCompleted = true) : Tested b st .done
  | ready {seg} (h : st.pc = .readyTest) (hseg : b.segments[st.currentSegment]? = some seg)
      (hr : seg.state = .ready) : Tested b st .segStart
  | started (h : st.pc = .segStart) :
      Tested b st (.segEnd (b.segmentStart st.currentSegment))
  | more {a} (h : st.pc = .segEnd a)
      (hlt : a + st.offsetInSegment < b.segmentEnd st.currentSegment) :
      Tested b st (.read (a + st.offsetInSegment)
        (b.segmentEnd st.currentSegment - (a + st.offsetInSegment)))
  | wait : Tested b st .waiting
  | woken (h : st.pc = .waiting) : Tested b st .top

/-- Everything a step of the closure can be. -/
inductive Polled (b : SegmentsBuffer) (st : StreamState) (r : Except IoError Nat) :
    StreamState → Prop
  | tested {pc} (h : Tested b st pc) : Polled b st r { st with pc := pc }
  | error (h : st.pc = .top) : Polled b st r st.yieldError
  | segmentOver {a} (h : st.pc = .segEnd a)
      (hge : b.segmentEnd st.currentSegment ≤ a + st.offsetInSegment) :
      Polled b st r st.nextSegment
  | chunk {pos rem n} (h : st.pc = .read pos rem) (hr : r = .ok n) (hn : 0 < n)
      (hle : n ≤ rem) (hin : pos + n ≤ max pos b.file.length) :
      Polled b st r (st.yieldChunk ((b.file.drop pos).take n))
  | skip {pos rem} (h : st.pc = .read pos rem) (hmay : b.ReadAtMayReturn pos rem r)
      (hr : ∀ n, r = .ok n → n = 0 ∨ rem = 0 ∨ (b.file.drop pos).take n = []) :
      Polled b st r st.nextSegment

/-- `poll` does nothing but this. -/
theorem polled_of_poll {b : SegmentsBuffer} {st st' : StreamState} {r : Except IoError Nat}
    (h : poll b st r = some st') : Polled b st r st' := by
  rw [poll] at h
  split at h
  next hpc =>
    split at h
    next =>
      split at h
      next he => cases h; exact .tested (.failedTwice hpc he)
      next => cases h; exact .error hpc
    next => cases h; exact .tested (.alive hpc)
  next hpc =>
    split at h
    next hlen => cases h; exact .tested (.beyond hpc hlen)
    next => cases h; exact .tested (.listed hpc)
  next hpc =>
    split at h
    next => cases h; exact .tested .wait
    next => cases h; exact .tested (.someSegment hpc)
  next hpc =>
    split at h
    next hd => cases h; exact .tested (.completed hpc hd)
    next => cases h; exact .tested .wait
  next hpc =>
    split at h
    next hr =>
      cases h
      obtain ⟨seg, hseg, hready⟩ := isReady_iff.mp hr
      exact .tested (.ready hpc hseg hready)
    next => cases h; exact .tested .wait
  next hpc => cases h; exact .tested (.started hpc)
  next a hpc =>
    simp only at h
    split at h
    next hge => cases h; exact .segmentOver hpc hge
    next hlt => cases h; exact .tested (.more hpc (by omega))
  next pos rem hpc =>
    split at h
    next hmay =>
      split at h
      next bytes hread =>
        simp only [readData] at hread
        split at hread
        next hrem =>
          cases hread
          cases h
          exact .skip hpc hmay fun n _ => Or.inr (Or.inl hrem)
        next hrem =>
          -- there is something to read: the read decides
          cases r with
          | error e => exact nomatch hread
          | ok n =>
              simp only at hread
              split at hread
              next => exact nomatch hread
              next hn =>
                cases hread
                split at h
                next hempty =>
                  cases h
                  refine .skip hpc hmay fun m hm => Or.inr (Or.inr ?_)
                  cases hm
                  exact List.isEmpty_iff.mp hempty
                next =>
                  cases h
                  exact .chunk hpc rfl (by omega) hmay.1 hmay.2
      next hread =>
        cases h
        refine .skip hpc hmay fun n hn => Or.inl ?_
        -- `read_data` fails on a read of no bytes
        subst hn
        unfold readData at hread
        split at hread
        next => exact nomatch hread
        next =>
          simp only at hread
          split at hread
          next hz => exact hz
          next => exact nomatch hread
    next => exact nomatch h
  next hpc => cases h; exact .tested (.woken hpc)
  next => exact nomatch h

/-- A step that does not lead to the head of the loop is a test. -/
theorem tested_of_polled {b : SegmentsBuffer} {st st' : StreamState} {r : Except IoError Nat}
    {pc : Pc} (h : Polled b st r st') (hpc : st'.pc = pc) (htop : pc ≠ .top) :
    st' = { st with pc := pc } ∧ Tested b st pc := by
  subst hpc
  cases h with
  | tested ht => exact ⟨rfl, ht⟩
  | error h => exact absurd h htop
  | segmentOver => exact absurd rfl htop
  | chunk => exact absurd rfl htop
  | skip => exact absurd rfl htop

/-- The bytes that a read returns are in the file. -/
theorem length_read {b : SegmentsBuffer} {pos n : Nat}
    (hin : pos + n ≤ max pos b.file.length) : ((b.file.drop pos).take n).length = n := by
  rw [List.length_take, List.length_drop]
  omega

/-! ## The bytes sent -/

variable {st : StreamState} {pc : Pc} {bytes : Bytes}

@[simp] theorem sent_yieldChunk : (st.yieldChunk bytes).sent = st.sent ++ bytes := by
  simp only [sent, yieldChunk]
  rw [List.flatMap_append, List.flatMap_singleton]

@[simp] theorem sent_yieldError : st.yieldError.sent = st.sent := by
  simp only [sent, yieldError]
  rw [List.flatMap_append, List.flatMap_singleton, List.append_nil]

end BlitzStream
