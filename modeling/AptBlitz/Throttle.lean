import AptBlitz.Buffer
import AptBlitz.WaitConsumeRuns

/-! # `ThrottledPermitStream`

    The body of a response, metered by the bucket of its IP.  A chunk of the
    inner stream is cut into pieces no larger than the bucket, and a piece is
    handed out when `try_consume` has given its length.

    `poll_next` calls the bucket in up to two places, `try_deliver` and
    `schedule_wake`, and any thread may use the bucket while it does.  What
    the inner stream answers, whether the timer has fired and whether the
    token is cancelled is up to the schedule. -/

namespace BlitzThrottle

open BlitzBuffer BlitzBucket.TokenBucket
open BlitzBucket hiding Act step start
open BlitzWaitConsume (isCallOf)

/-- What a stream yields: a chunk, or the text of an error. -/
abbrev Item := Except String Bytes

/-- `Poll`. -/
inductive Poll (T : Type) where
  | pending
  | ready (value : T)
  deriving DecidableEq, Repr

/-- `ThrottleState`. -/
inductive ThrottleState where
  | idle
  | waiting
  deriving DecidableEq, Repr

/-! ## The splitter -/

/-- `chunk.slice(offset..end)`. -/
def slice (chunk : Bytes) (offset stop : Nat) : Bytes := (chunk.take stop).drop offset

/-- `while offset < chunk.len()`, for `fuel` tests of the condition; `none`
    if the loop is still running.  The sum cannot overflow: both numbers are
    below a length in memory. -/
def splitLoop (chunk : Bytes) (max : Nat) : Nat → Nat → List Bytes → Option (List Bytes)
  | 0, _, _ => none
  | fuel + 1, offset, pending =>
      if offset < chunk.length then
        let stop := min (offset + max) chunk.length
        splitLoop chunk max fuel stop (pending ++ [slice chunk offset stop])
      else some pending

/-- `enqueue_chunk` on the queue; `none` if its loop does not end.  A loop
    that ends makes at most one pass for each byte. -/
def enqueueChunk (bucket : Option TokenBucket) (pending : List Bytes) (chunk : Bytes) :
    Option (List Bytes) :=
  match bucket with
  | some bucket =>
      if chunk.length ≤ bucket.maxTokens then some (pending ++ [chunk])
      else splitLoop chunk bucket.maxTokens (chunk.length + 1) 0 pending
  | none => some (pending ++ [chunk])

/-! ## The timer -/

/-- `wait_time_nanos`, when `available` has answered; the product wraps. -/
def waitTimeNanos (bucket : TokenBucket) (avail amount : Nat) : Nat :=
  if bucket.isUnlimited then 0
  else if amount ≤ avail then 0
  else ((amount - avail) * bucket.refillRateNanos) % 2 ^ 64

/-- The milliseconds that `schedule_wake` sleeps. -/
def wakeMs (waitNanos : Nat) : Nat :=
  if waitNanos = 0 then 1 else max (waitNanos / 1000000) 1

/-! ## The stream -/

/-- Where the thread that polls is. -/
inductive PollPc where
  /-- in no call of `poll_next` -/
  | out
  /-- in `try_consume` of `try_deliver` -/
  | trying
  /-- in `available` of `schedule_wake` -/
  | waking
  deriving DecidableEq, Repr

/-- How the stream has returned `Ready(None)`. -/
inductive Ending where
  | cancelled
  | exhausted
  deriving DecidableEq, Repr

/-- The stream, its bucket with the threads that use it, and three records
    that nothing reads: what the inner stream has produced, what `poll_next`
    has delivered, and the amounts for which `try_consume` answered `true`. -/
structure Throttled where
  bucket : Option Shared
  /-- the thread that polls -/
  me : Nat
  state : ThrottleState
  timer : Option Nat
  pending : List Bytes
  pc : PollPc
  ended : Option Ending
  produced : List Item
  delivered : List Item
  paid : List Nat

/-- The amount of a `try_consume` that has answered `true`. -/
def success : Pc → List Nat
  | .tried n true => [n]
  | _ => []

/-- The success, if any, with which a step ends a call. -/
def answered (before after : Pc) : List Nat :=
  if before.resting then [] else success after

namespace Throttled

/-- The polling thread calls the bucket; an unlimited one answers at once. -/
def call (s : Throttled) (shared : Shared) (op : Op) (pc : PollPc) : Throttled :=
  let next := enter shared.bucket op
  { s with bucket := some (shared.goto s.me next), pc, paid := s.paid ++ success next }

/-- `schedule_wake`, up to the call of `available`. -/
def scheduleWake (s : Throttled) : Throttled :=
  match s.bucket with
  | none => { s with pc := .out }
  | some shared =>
      if (s.pending.map List.length).sum = 0 then { s with pc := .out }
      else s.call shared .available .waking

/-- `Poll::Ready(Some(Ok(chunk)))`. -/
def deliver (s : Throttled) (chunk : Bytes) (rest : List Bytes) : Throttled :=
  { s with pending := rest, delivered := s.delivered ++ [.ok chunk], state := .idle, pc := .out }

/-- `pending.pop_front().unwrap()`, delivered. -/
def popFront (s : Throttled) : Option Throttled :=
  match s.pending with
  | [] => none
  | chunk :: rest => some (s.deliver chunk rest)

/-- `try_deliver` has returned `Pending`. -/
def undelivered (s : Throttled) : Throttled :=
  match s.state with
  | .idle => { s with state := .waiting }.scheduleWake
  | .waiting =>
      if s.pending.isEmpty then { s with state := .idle, pc := .out } else s.scheduleWake

/-- `try_deliver`, up to the call of `try_consume`. -/
def tryDeliver (s : Throttled) : Throttled :=
  match s.bucket, s.pending with
  | some shared, front :: _ => s.call shared (.tryConsume front.length) .trying
  | some _, [] => s.undelivered
  | none, _ => s.popFront.getD s.undelivered

/-- The inner stream is ready with an item. -/
def receive (s : Throttled) : Item → Option Throttled
  | .error e =>
      some { s with produced := s.produced ++ [.error e],
                    delivered := s.delivered ++ [.error e] }
  | .ok chunk =>
      match enqueueChunk (s.bucket.map Shared.bucket) s.pending chunk with
      | none => none
      | some pending =>
          let s := { s with pending, produced := s.produced ++ [Except.ok chunk] }
          if s.bucket.isNone then s.popFront else some s.tryDeliver

/-- `poll_next`, up to its first call of the bucket; `none` if it does not
    come that far or panics. -/
def pollNext (s : Throttled) (cancelled timerPending : Bool) (inner : Poll (Option Item)) :
    Option Throttled :=
  if cancelled then some { s with ended := some .cancelled }
  else
    match s.state with
    | .idle =>
        if s.bucket.isSome && !s.pending.isEmpty then some s.tryDeliver
        else
          match inner with
          | .pending =>
              if s.bucket.isSome && !s.pending.isEmpty then
                some { s with state := .waiting }.scheduleWake
              else some s
          | .ready none =>
              if s.pending.isEmpty then some { s with ended := some .exhausted }
              else if s.bucket.isNone then s.popFront
              else some { s with state := .waiting }.scheduleWake
          | .ready (some item) => s.receive item
    | .waiting =>
        if s.timer.isSome && timerPending then some s
        else some { s with timer := none }.tryDeliver

/-- The bucket has returned to `poll_next`. -/
def result (s : Throttled) (shared : Shared) : Option Throttled :=
  match s.pc, shared.threads s.me with
  | .trying, .tried _ true => s.popFront
  | .trying, .tried _ false => some s.undelivered
  | .waking, .saw avail =>
      let amount := (s.pending.map List.length).sum
      some { s with timer := some (wakeMs (waitTimeNanos shared.bucket avail amount)), pc := .out }
  | _, _ => none

end Throttled

/-- The bucket's steps, and those of the stream. -/
inductive Act where
  /-- a step of any thread; the polling one begins no other call -/
  | bucket (act : BlitzBucket.Act)
  | poll (cancelled timerPending : Bool) (inner : Poll (Option Item))
  | result
  deriving DecidableEq

/-- One step of the stream or of the bucket. -/
def step (s : Throttled) : Act → Option Throttled
  | .bucket act =>
      match s.bucket with
      | none => none
      | some shared =>
          if isCallOf s.me act then none
          else (BlitzBucket.step shared act).map fun next =>
            { s with bucket := some next,
                     paid := s.paid ++ answered (shared.threads s.me) (next.threads s.me) }
  | .poll cancelled timerPending inner =>
      if s.pc = .out ∧ s.ended = none then s.pollNext cancelled timerPending inner else none
  | .result =>
      match s.bucket with
      | none => none
      | some shared => s.result shared

/-- `wrap_response_with_permit`; the polling thread is in no call. -/
def wrap (bucket : Option Shared) (me : Nat) : Throttled where
  bucket := bucket.map fun shared => shared.goto me .idle
  me := me
  state := .idle
  timer := none
  pending := []
  pc := .out
  ended := none
  produced := []
  delivered := []
  paid := []

/-- The chunks among the items. -/
def chunks (items : List Item) : List Bytes :=
  items.filterMap fun
    | .ok chunk => some chunk
    | .error _ => none

/-- What a reader gets from a stream: its bytes and its errors, in order. -/
def content (items : List Item) : List (Except String UInt8) :=
  items.flatMap fun
    | .ok chunk => chunk.map .ok
    | .error e => [.error e]

end BlitzThrottle
