import AptBlitz.BucketRuns

/-! # Waiting for tokens

    `wait_consume` asks for all its bytes once, and then for batches, with a
    sleep before each.  One thread is in `wait_consume`; any number of others
    use the same bucket, in any order of steps.

    The sleeps are tied to the clock: after a sleep of `delay_ms` the thread
    is shown a time that is at least so much later.  What the other threads
    are shown is free. -/

namespace BlitzWaitConsume

open BlitzBucket BlitzBucketRuns TokenBucket Runs

/-- The batch of `wait_consume`. -/
def batchSize : Nat := 64 * 1024

/-- The longest sleep. -/
def maxDelayMs : Nat := 100

/-- The nanoseconds of a millisecond. -/
def nanosPerMilli : Nat := 1000000

/-- `remaining.min(64 * 1024)`. -/
def batch (remaining : Nat) : Nat := min remaining batchSize

/-- Where a call of `wait_consume` is. -/
inductive WaitPc where
  /-- in `try_consume(bytes)` -/
  | first (bytes : Nat)
  /-- `cancel.is_cancelled()` -/
  | check (remaining delayMs : Nat)
  | sleep (remaining delayMs : Nat)
  /-- in `try_consume(batch)` -/
  | ask (remaining delayMs : Nat)
  | returned (ok : Bool)
  deriving DecidableEq, Repr

/-- `while remaining > 0`. -/
def loopHead (remaining delayMs : Nat) : WaitPc :=
  if 0 < remaining then .check remaining delayMs else .returned true

/-- Behind the first `try_consume`. -/
def afterFirst (bytes : Nat) (ok : Bool) : WaitPc :=
  if ok then .returned true else loopHead bytes 1

/-- Behind a `try_consume` of the loop. -/
def afterAsk (remaining delayMs : Nat) (ok : Bool) : WaitPc :=
  if ok then loopHead (remaining - batch remaining) 1
  else loopHead remaining (min (delayMs * 2) maxDelayMs)

/-- The bucket, and the thread that waits. -/
structure Waiting where
  shared : Shared
  me : Nat
  pc : WaitPc
  /-- what the clock has shown the thread last -/
  readAt : Nat

/-- `try_consume(amount)` is called. -/
def Waiting.tryConsume (s : Waiting) (amount : Nat) (pc : WaitPc) : Waiting :=
  { s with shared := s.shared.goto s.me (enter s.shared.bucket (.tryConsume amount)), pc }

/-- The action begins a call of thread `w`. -/
def isCallOf (w : Nat) : BlitzBucket.Act → Bool
  | .call v _ => v == w
  | _ => false

/-- Other threads may do anything.  The waiting one begins no other call, and
    after a sleep the clock shows it a time that is at least `delay_ms` later
    than the one before, and less than 2^63 nanoseconds (292 years) later. -/
def Waiting.allows (s : Waiting) : BlitzBucket.Act → Bool
  | .call v _ => v != s.me
  | .clock v now =>
      match s.pc with
      | .ask _ delayMs =>
          v != s.me || (s.readAt + delayMs * nanosPerMilli ≤ now && now < s.readAt + 2 ^ 63)
      | _ => true
  | .go _ => true

/-- The time the thread was shown last, after a step of the bucket. -/
def Waiting.shown (s : Waiting) : BlitzBucket.Act → Nat
  | .clock v now => if v = s.me then now else s.readAt
  | _ => s.readAt

/-- The steps of the bucket and of the caller. -/
inductive Act where
  /-- a step of any thread -/
  | bucket (act : BlitzBucket.Act)
  /-- `try_consume` has returned to `wait_consume` -/
  | result
  | check (cancelled : Bool)
  /-- the sleep is over -/
  | wake
  deriving DecidableEq, Repr

/-- One step of the caller or of the bucket. -/
def step (s : Waiting) : Act → Option Waiting
  | .bucket act =>
      if s.allows act then
        (BlitzBucket.step s.shared act).map fun shared => { s with shared, readAt := s.shown act }
      else none
  | .result =>
      match s.pc, s.shared.threads s.me with
      | .first bytes, .tried _ ok => some { s with pc := afterFirst bytes ok }
      | .ask remaining delayMs, .tried _ ok => some { s with pc := afterAsk remaining delayMs ok }
      | _, _ => none
  | .check cancelled =>
      match s.pc with
      | .check remaining delayMs =>
          if cancelled then some { s with pc := .returned false }
          else some { s with pc := .sleep remaining delayMs }
      | _ => none
  | .wake =>
      match s.pc with
      | .sleep remaining delayMs =>
          some (s.tryConsume (batch remaining) (.ask remaining delayMs))
      | _ => none

/-- `wait_consume(bytes)` is called. -/
def waiting (shared : Shared) (me bytes : Nat) : Waiting where
  shared := shared.goto me (enter shared.bucket (.tryConsume bytes))
  me := me
  pc := .first bytes
  readAt := 0

/-! ## A thread on its own -/

variable {s t : Shared} {w n : Nat} {op : Op}

/-- The steps of thread `w` in a call; a clock reading is given. -/
def ownStep (w : Nat) (s : Shared) : Option Nat → Option Shared
  | none => BlitzBucket.step s (.go w)
  | some now => BlitzBucket.step s (.clock w now)

/-- On its own the thread gets an answer to `try_consume(n)`. -/
def CanTry (w n : Nat) (s : Shared) : Prop :=
  ∃ t ok, Reaches (ownStep w) s t ∧ t.threads w = .tried n ok

theorem goto_self (s : Shared) (w : Nat) (pc : Pc) : (s.goto w pc).threads w = pc :=
  Function.update_self ..

/-- A thread that gets there by going on. -/
theorem canTry_of_go (h : goStep s w = some t) (ht : CanTry w n t) : CanTry w n s := by
  obtain ⟨u, ok, hreach, hu⟩ := ht
  exact ⟨u, ok, Reaches.trans (Reaches.single (a := none) h) hreach, hu⟩

/-- Before the load. -/
theorem canTry_of_load (hw : s.threads w = .loadConsume n) : CanTry w n s := by
  by_cases hle : n ≤ s.bucket.tokens
  · have hload : goStep s w = some (s.goto w (.casConsume n s.bucket.tokens)) := by
      simp only [goStep, hw, if_neg (not_lt.mpr hle)]
    have htake : goStep (s.goto w (.casConsume n s.bucket.tokens)) w
        = some ({ (s.goto w (.casConsume n s.bucket.tokens)).setTokens (s.bucket.tokens - n) with
            consumed := s.consumed + n }.goto w (.tried n true)) := by
      simp only [goStep, goto_self]
      exact if_pos rfl
    exact canTry_of_go hload (canTry_of_go htake ⟨_, true, Reaches.refl, goto_self ..⟩)
  · have hload : goStep s w = some (s.goto w (.tried n false)) := by
      simp only [goStep, hw, if_pos (not_le.mp hle)]
    exact canTry_of_go hload ⟨_, false, Reaches.refl, goto_self ..⟩

/-- A thread that comes out of `refill`. -/
theorem canTry_of_back {u : Shared}
    (h : goStep s w = some (u.goto w (afterRefill (.tryConsume n)))) : CanTry w n s :=
  canTry_of_go h (canTry_of_load (goto_self ..))

/-- Before the refill is put in. -/
theorem canTry_of_loadRefill {refill : Nat}
    (hw : s.threads w = .loadRefill (.tryConsume n) refill) : CanTry w n s := by
  have hload : goStep s w
      = some (s.goto w (.casRefill (.tryConsume n) refill s.bucket.tokens)) := by
    simp only [goStep, hw]
  refine canTry_of_go hload ?_
  refine canTry_of_back (u := (s.goto w (.casRefill (.tryConsume n) refill
    s.bucket.tokens)).setTokens (s.bucket.addRefill s.bucket.tokens refill)) ?_
  simp only [goStep, goto_self]
  exact if_pos rfl

/-- Before the time of the refill is put in. -/
theorem canTry_of_casLast {now last : Nat} (hw : s.threads w = .casLast (.tryConsume n) now last) :
    CanTry w n s := by
  by_cases heq : s.bucket.lastRefillNanos = last
  · by_cases hzero : s.bucket.refillFor (now - last) = 0
    · refine canTry_of_back (u := s.setLast now) ?_
      simp only [goStep, hw, if_pos heq, if_pos hzero]
    · have hwon : goStep s w = some ((s.setLast now).goto w
          (.loadRefill (.tryConsume n) (s.bucket.refillFor (now - last)))) := by
        simp only [goStep, hw, if_pos heq, if_neg hzero]
      exact canTry_of_go hwon (canTry_of_loadRefill (goto_self ..))
  · refine canTry_of_back (u := s) ?_
    simp only [goStep, hw, if_neg heq]

/-- The amount of the `try_consume` that a thread is in, or was in last. -/
def tryAmount : Pc → Option Nat
  | .clock (.tryConsume n) => some n
  | .loadLast (.tryConsume n) _ => some n
  | .casLast (.tryConsume n) _ _ => some n
  | .loadRefill (.tryConsume n) _ => some n
  | .casRefill (.tryConsume n) _ _ => some n
  | .loadConsume n => some n
  | .casConsume n _ => some n
  | .tried n _ => some n
  | _ => none

/-- **No call hangs**: a thread in `try_consume` gets its answer when the
    others let it. -/
theorem canTry_of_tryAmount (hw : tryAmount (s.threads w) = some n) : CanTry w n s := by
  cases hpc : s.threads w with
  | clock op =>
      cases op <;> rw [hpc] at hw <;> cases hw
      -- the clock shows zero, and there is nothing to refill
      obtain ⟨u, ok, hreach, hu⟩ : CanTry w n
          ({ s with clock := max s.clock 0 }.goto w (.loadLast (.tryConsume n) 0)) := by
        refine canTry_of_back
          (u := { s with clock := max s.clock 0 }.goto w (.loadLast (.tryConsume n) 0)) ?_
        simp only [goStep, goto_self]
        exact if_pos (Nat.zero_sub _)
      refine ⟨u, ok, Reaches.trans (Reaches.single (a := some 0) ?_) hreach, hu⟩
      simp only [ownStep, BlitzBucket.step, hpc]
  | loadLast op now =>
      cases op <;> rw [hpc] at hw <;> cases hw
      by_cases htime : now - s.bucket.lastRefillNanos = 0
      · refine canTry_of_back (u := s) ?_
        simp only [goStep, hpc]
        exact if_pos htime
      · have hload : goStep s w
            = some (s.goto w (.casLast (.tryConsume n) now s.bucket.lastRefillNanos)) := by
          simp only [goStep, hpc]
          exact if_neg htime
        exact canTry_of_go hload (canTry_of_casLast (goto_self ..))
  | casLast op now last =>
      cases op <;> rw [hpc] at hw <;> cases hw
      exact canTry_of_casLast hpc
  | loadRefill op refill =>
      cases op <;> rw [hpc] at hw <;> cases hw
      exact canTry_of_loadRefill hpc
  | casRefill op refill prev =>
      cases op <;> rw [hpc] at hw <;> cases hw
      by_cases heq : s.bucket.tokens = prev
      · refine canTry_of_back (u := s.setTokens (s.bucket.addRefill prev refill)) ?_
        simp only [goStep, hpc]
        exact if_pos heq
      · have hlost : goStep s w = some (s.goto w (.loadRefill (.tryConsume n) refill)) := by
          simp only [goStep, hpc]
          exact if_neg heq
        exact canTry_of_go hlost (canTry_of_loadRefill (goto_self ..))
  | loadConsume amount =>
      rw [hpc] at hw
      cases hw
      exact canTry_of_load hpc
  | casConsume amount prev =>
      rw [hpc] at hw
      cases hw
      by_cases heq : s.bucket.tokens = prev
      · have htake : goStep s w = some ({ s.setTokens (prev - n) with
            consumed := s.consumed + n }.goto w (.tried n true)) := by
          simp only [goStep, hpc]
          exact if_pos heq
        exact canTry_of_go htake ⟨_, true, Reaches.refl, goto_self ..⟩
      · have hlost : goStep s w = some (s.goto w (.loadConsume n)) := by
          simp only [goStep, hpc]
          exact if_neg heq
        exact canTry_of_go hlost (canTry_of_load (goto_self ..))
  | tried amount ok =>
      rw [hpc] at hw
      cases hw
      exact ⟨s, ok, Reaches.refl, hpc⟩
  | idle => rw [hpc] at hw; cases hw
  | loadAvailable => rw [hpc] at hw; cases hw
  | saw tokens => rw [hpc] at hw; cases hw

end BlitzWaitConsume
