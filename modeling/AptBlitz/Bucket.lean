import Mathlib.Algebra.Ring.Nat
import Mathlib.Logic.Function.Basic

/-! # The token bucket

    `TokenBucket`, and the threads that call it.  The bucket is two atomic
    counters; a call takes one step for each clock reading, each load and
    each `compare_exchange`, and the clock may show anything.

    Numbers are `u64`; the one addition that could overflow wraps here as it
    does in a release build. -/

namespace BlitzBucket

/-- `NANOS_PER_SEC`. -/
def nanosPerSec : Nat := 1000000000

/-- `u64::MAX`. -/
def u64Max : Nat := 2 ^ 64 - 1

/-- `TokenBucketInner`. -/
structure TokenBucket where
  tokens : Nat
  maxTokens : Nat
  refillRateNanos : Nat
  lastRefillNanos : Nat
  deriving DecidableEq, Repr

namespace TokenBucket

/-- `new` at a clock reading; `checked_div` fails where `/` gives zero. -/
def new (maxTokens refillPerSec now : Nat) : TokenBucket where
  tokens := maxTokens
  maxTokens := maxTokens
  refillRateNanos := nanosPerSec / refillPerSec
  lastRefillNanos := now

/-- A bucket without a limit. -/
def unlimited : TokenBucket where
  tokens := u64Max
  maxTokens := u64Max
  refillRateNanos := 0
  lastRefillNanos := 0

/-- The test with which `try_consume`, `available` and `wait_time_nanos`
    begin. -/
def isUnlimited (b : TokenBucket) : Bool :=
  b.maxTokens == u64Max && b.refillRateNanos == 0

/-- What `refill` credits for the time since the last refill. -/
def refillFor (b : TokenBucket) (elapsed : Nat) : Nat :=
  min (elapsed / b.refillRateNanos) b.maxTokens

/-- `(prev + refill).min(max_tokens)`. -/
def addRefill (b : TokenBucket) (prev refill : Nat) : Nat :=
  min ((prev + refill) % 2 ^ 64) b.maxTokens

end TokenBucket

/-! ## Threads -/

/-- The methods of a bucket. -/
inductive Op where
  | tryConsume (amount : Nat)
  | available
  | refill
  deriving DecidableEq, Repr

/-- Where a thread is in a call. -/
inductive Pc where
  | idle
  /-- `epoch_nanos()` in `refill` -/
  | clock (op : Op)
  /-- `last_refill_nanos.load` -/
  | loadLast (op : Op) (now : Nat)
  /-- `last_refill_nanos.compare_exchange(last, now)` -/
  | casLast (op : Op) (now last : Nat)
  /-- `tokens.load` in the loop of `refill` -/
  | loadRefill (op : Op) (refill : Nat)
  /-- `tokens.compare_exchange(prev, new)` -/
  | casRefill (op : Op) (refill prev : Nat)
  /-- `tokens.load` in the loop of `try_consume` -/
  | loadConsume (amount : Nat)
  /-- `tokens.compare_exchange(prev, prev - amount)` -/
  | casConsume (amount prev : Nat)
  /-- `tokens.load` in `available` -/
  | loadAvailable
  /-- `try_consume(amount)` has returned -/
  | tried (amount : Nat) (ok : Bool)
  /-- `available` has returned -/
  | saw (tokens : Nat)
  deriving DecidableEq, Repr

/-- What a call does once `refill` is over, or not called. -/
def afterRefill : Op → Pc
  | .tryConsume amount => .loadConsume amount
  | .available => .loadAvailable
  | .refill => .idle

/-- How a call begins; `refill` is not called on a bucket without a rate. -/
def enter (b : TokenBucket) (op : Op) : Pc :=
  match op with
  | .refill => if 0 < b.refillRateNanos then .clock .refill else .idle
  | .tryConsume amount =>
      if b.isUnlimited then .tried amount true
      else if 0 < b.refillRateNanos then .clock op
      else afterRefill op
  | .available =>
      if b.isUnlimited then .saw u64Max
      else if 0 < b.refillRateNanos then .clock op
      else afterRefill op

/-- The thread is not in a call. -/
def Pc.resting : Pc → Bool
  | .idle => true
  | .tried _ _ => true
  | .saw _ => true
  | _ => false

/-- The bucket, its threads, and two sums that nothing reads. -/
structure Shared where
  bucket : TokenBucket
  threads : Nat → Pc
  /-- what all successful `try_consume` calls took -/
  consumed : Nat
  /-- the largest clock reading there has been -/
  clock : Nat

namespace Shared

/-- Thread `w` goes on to `pc`. -/
def goto (s : Shared) (w : Nat) (pc : Pc) : Shared :=
  { s with threads := Function.update s.threads w pc }

/-- A store of the tokens. -/
def setTokens (s : Shared) (tokens : Nat) : Shared :=
  { s with bucket := { s.bucket with tokens } }

/-- A store of the time of the last refill. -/
def setLast (s : Shared) (now : Nat) : Shared :=
  { s with bucket := { s.bucket with lastRefillNanos := now } }

end Shared

/-- A thread calls, reads the clock or goes on. -/
inductive Act where
  | call (w : Nat) (op : Op)
  | clock (w now : Nat)
  | go (w : Nat)
  deriving DecidableEq, Repr

/-- A load or a `compare_exchange` of thread `w`. -/
def goStep (s : Shared) (w : Nat) : Option Shared :=
  match s.threads w with
  | .loadLast op now =>
      let last := s.bucket.lastRefillNanos
      if now - last = 0 then some (s.goto w (afterRefill op))
      else some (s.goto w (.casLast op now last))
  | .casLast op now last =>
      if s.bucket.lastRefillNanos = last then
        let refill := s.bucket.refillFor (now - last)
        if refill = 0 then some ((s.setLast now).goto w (afterRefill op))
        else some ((s.setLast now).goto w (.loadRefill op refill))
      else some (s.goto w (afterRefill op))
  | .loadRefill op refill => some (s.goto w (.casRefill op refill s.bucket.tokens))
  | .casRefill op refill prev =>
      if s.bucket.tokens = prev then
        some ((s.setTokens (s.bucket.addRefill prev refill)).goto w (afterRefill op))
      else some (s.goto w (.loadRefill op refill))
  | .loadConsume amount =>
      let prev := s.bucket.tokens
      if prev < amount then some (s.goto w (.tried amount false))
      else some (s.goto w (.casConsume amount prev))
  | .casConsume amount prev =>
      if s.bucket.tokens = prev then
        some ({ s.setTokens (prev - amount) with consumed := s.consumed + amount }.goto w
          (.tried amount true))
      else some (s.goto w (.loadConsume amount))
  | .loadAvailable => some (s.goto w (.saw s.bucket.tokens))
  | _ => none

/-- One step. -/
def step (s : Shared) : Act → Option Shared
  | .call w op =>
      if (s.threads w).resting then some (s.goto w (enter s.bucket op)) else none
  | .clock w now =>
      match s.threads w with
      | .clock op => some ({ s with clock := max s.clock now }.goto w (.loadLast op now))
      | _ => none
  | .go w => goStep s w

/-- A new bucket, at the clock reading of its creation. -/
def start (maxTokens refillPerSec now : Nat) : Shared where
  bucket := .new maxTokens refillPerSec now
  threads := fun _ => .idle
  consumed := 0
  clock := now

end BlitzBucket
