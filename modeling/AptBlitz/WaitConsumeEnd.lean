import AptBlitz.BucketAlone

/-! # When waiting for tokens ends

    A call of `wait_consume` that has the bucket to itself, from wherever it
    has come to.  It polls at most 100 ms apart, and each poll drops what is
    less than the price of a token from the time that it credits.  So a token
    may cost no more than 100 ms, and the bucket must have room for the first
    batch; then the call always returns: `waitConsume_returns_iff`. -/

namespace BlitzWaitConsumeEnd

open BlitzBucketRuns BlitzBucketAlone BlitzWaitConsume BlitzWaitConsumeRuns Runs
open BlitzBucket hiding Act step
open BlitzBucket.TokenBucket hiding new

variable {s t u : Waiting} {a : Act} {bytes b q created n r d : Nat} {shared shared' : Shared}
  {w : Nat} {pc : Pc} {bucket : TokenBucket}

/-! ## A call that is left alone -/

/-- The steps of thread `me`; it is not cancelled. -/
def isOwn (me : Nat) : Act → Bool
  | .bucket (.call _ _) => false
  | .bucket (.clock v _) => v == me
  | .bucket (.go v) => v == me
  | .check cancelled => !cancelled
  | _ => true

/-- A step of the caller, the others being still. -/
def alone (s : Waiting) (a : Act) : Option Waiting := if isOwn s.me a then step s a else none

/-- Left alone, the call takes a bounded number of steps, and stops nowhere
    but where it returns that it has consumed. -/
structure Ends (s : Waiting) : Prop where
  bounded : ∃ bound, ∀ acts t, run alone s acts = some t → acts.length ≤ bound
  goesOn : ∀ t, Reaches alone s t → t.pc = .returned true ∨ ∃ a u, alone t a = some u

/-- A call that is left alone is not cancelled. -/
theorem uncancelled_of_alone (h : alone s a = some t) : uncancelled s a = some t := by
  rw [alone] at h
  split at h
  next hown =>
    rw [uncancelled, if_neg]
    · exact h
    · rintro rfl
      cases hown
  next => cases h

/-! ## How many polls are left -/

/-- A bound on the polls that a call with `r` bytes left still makes.  A poll
    that is met takes from `r`.  One that is refused lengthens the delay, or
    adds a token; the first one may have to catch up with the time that other
    threads have credited, or to credit all of the time they have not. -/
def polls (maxTokens r d tokens last readAt : Nat) : Nat :=
  r * (maxTokens + 101) + (maxDelayMs - d)
    + (if tokens < batchSize then maxTokens - tokens else maxTokens + 1)
    + (last - readAt) + (if last < readAt then maxTokens + 1 else 0)

/-- A bound on the steps that are left after a `try_consume`. -/
def stepsAfter (maxTokens tokens last readAt : Nat) : WaitPc → Nat
  | .check r d => 12 * polls maxTokens r d tokens last readAt + 12
  | _ => 0

/-- What is left once the clock has been read: the time that is credited is
    not behind it. -/
theorem polls_le (r maxTokens tokens last now : Nat) :
    polls maxTokens r 1 tokens (max last now) now
      ≤ r * (maxTokens + 101) + maxTokens + 100 + (last - now) := by
  rw [polls, if_neg (by omega : ¬ max last now < now), maxDelayMs]
  split <;> omega

/-- After a poll that is met. -/
theorem polls_met (d maxTokens tokens tokens' last : Nat) {readAt now : Nat} (hn : 0 < n)
    (hle : n ≤ r) (hnow : readAt ≤ now) :
    polls maxTokens (r - n) 1 tokens' (max last now) now
      < polls maxTokens r d tokens last readAt := by
  have hless : (r - n + 1) * (maxTokens + 101) ≤ r * (maxTokens + 101) :=
    Nat.mul_le_mul_right _ (by omega)
  rw [Nat.succ_mul] at hless
  have hafter := polls_le (r - n) maxTokens tokens' last now
  have hbefore : r * (maxTokens + 101) + (last - readAt)
      ≤ polls maxTokens r d tokens last readAt := by
    rw [polls]
    omega
  omega

theorem batch_le (r : Nat) : batch r ≤ r := min_le_left ..

/-- A loop that goes on asks for something. -/
theorem batch_pos (h : 0 < r) : 0 < batch r := lt_min h (by decide)

/-- After a poll that is refused.  Ten tokens a second are at least one for
    each delay of 100 ms. -/
theorem polls_refused {last readAt now : Nat} (hq : 0 < bucket.refillRateNanos)
    (hprice : bucket.refillRateNanos ≤ maxDelayMs * nanosPerMilli)
    (htokens : bucket.tokens ≤ bucket.maxTokens) (hroom : batch r ≤ bucket.maxTokens)
    (hd : 1 ≤ d ∧ d ≤ maxDelayMs) (hlast : last = bucket.lastRefillNanos)
    (hnow : readAt + d * nanosPerMilli ≤ now) (hnow' : now < readAt + 2 ^ 63)
    (hrefused : refilled bucket (bucket.refillFor (now - last)) < batch r) :
    polls bucket.maxTokens r (min (d * 2) maxDelayMs)
        (refilled bucket (bucket.refillFor (now - last))) (max last now) now
      < polls bucket.maxTokens r d bucket.tokens last readAt := by
  have hbatch : batch r ≤ batchSize := min_le_right ..
  have hfull : refilled bucket (bucket.refillFor (now - last)) < batchSize :=
    hrefused.trans_le hbatch
  rw [polls, if_pos hfull, if_neg (by omega : ¬ max last now < now), polls]
  simp only [maxDelayMs, nanosPerMilli] at *
  by_cases hmany : bucket.tokens < batchSize
  · rw [if_pos hmany]
    by_cases hbehind : last < readAt
    · -- any time may be credited, and the sum may wrap
      rw [if_pos hbehind]
      omega
    · rw [if_neg hbehind]
      have hrefill : bucket.refillFor (now - last) ≤ now - last :=
        (min_le_left ..).trans (Nat.div_le_self ..)
      have hsize : batchSize = 65536 := rfl
      have hwrap : bucket.tokens + bucket.refillFor (now - last) < 2 ^ 64 := by omega
      have hadds := refilled_eq htokens hwrap
      rw [hadds] at hrefused ⊢
      by_cases hlong : d < 100
      · omega
      · by_cases hahead : readAt < last
        · omega
        · -- the whole delay is credited
          have htoken : 1 ≤ (now - last) / bucket.refillRateNanos :=
            (Nat.one_le_div_iff hq).mpr (by omega)
          have hrefills : 1 ≤ bucket.refillFor (now - last) := le_min htoken (by omega)
          omega
  · rw [if_neg hmany]
    omega

/-- A bound on the steps that are left to a `try_consume(n)` and after it,
    `before` of them where the clock is not read yet. -/
def stepsIn (bucket : TokenBucket) (readAt n before : Nat) (next : Bool → WaitPc) : Pc → Nat
  | .clock _ => before
  | pc => stepsAfter bucket.maxTokens (answer bucket n pc).2 (lastOf bucket pc) readAt
      (next (answer bucket n pc).1) + stepsLeft bucket pc

/-- A bound on the steps that are left to the call. -/
def stepsFrom (s : Waiting) : Nat :=
  let bucket := s.shared.bucket
  let left := fun r d =>
    12 * polls bucket.maxTokens r d bucket.tokens bucket.lastRefillNanos s.readAt
  match s.pc with
  | .first n =>
      stepsIn bucket s.readAt n
        (12 * (n * (bucket.maxTokens + 101) + bucket.maxTokens + 100 + bucket.lastRefillNanos) + 21)
        (afterFirst n) (s.shared.threads s.me)
  | .check r d => left r d + 12
  | .sleep r d => left r d + 11
  | .ask r d =>
      stepsIn bucket s.readAt (batch r) (left r d + 10) (afterAsk r d) (s.shared.threads s.me)
  | .returned _ => 0

/-- Past the clock. -/
theorem stepsIn_of_read {readAt before : Nat} {next : Bool → WaitPc} (hpc : ∀ op, pc ≠ .clock op) :
    stepsIn bucket readAt n before next pc
      = stepsAfter bucket.maxTokens (answer bucket n pc).2 (lastOf bucket pc) readAt
          (next (answer bucket n pc).1) + stepsLeft bucket pc := by
  cases pc with
  | clock op => exact absurd rfl (hpc op)
  | _ => rfl

/-- A thread that keeps to what it will find comes closer to its answer. -/
theorem stepsIn_keeps {s t : Shared} {readAt before before' : Nat} {next : Bool → WaitPc}
    (h : Keeps s t w n) (hpc : ∀ op, s.threads w ≠ .clock op) :
    stepsIn t.bucket readAt n before' next (t.threads w)
      < stepsIn s.bucket readAt n before next (s.threads w) := by
  rw [stepsIn_of_read h.notClock, stepsIn_of_read hpc, h.max_eq, h.answer_eq, h.lastOf_eq]
  exact Nat.add_lt_add_left h.left_lt _

/-- What is left at the head of the loop. -/
theorem stepsAfter_loopHead (r d maxTokens tokens last readAt : Nat) :
    stepsAfter maxTokens tokens last readAt (loopHead r d)
      ≤ 12 * polls maxTokens r d tokens last readAt + 12 := by
  rw [loopHead]
  split
  · exact le_refl _
  · exact Nat.zero_le _

/-- The clock is read in the first `try_consume`. -/
theorem stepsIn_first {op : Op} {now before : Nat} :
    stepsIn bucket now n before (afterFirst n) (.loadLast op now)
      < 12 * (n * (bucket.maxTokens + 101) + bucket.maxTokens + 100 + bucket.lastRefillNanos)
          + 21 := by
  have hread : ∀ o, Pc.loadLast op now ≠ .clock o := fun o h => nomatch h
  rw [stepsIn_of_read hread, answer_loadLast, lastOf, stepsLeft]
  split
  · -- what it asks for is there, and the call is over
    show 0 + 8 < _
    omega
  · have hafter := stepsAfter_loopHead n 1 bucket.maxTokens
      (refilled bucket (bucket.refillFor (now - bucket.lastRefillNanos)))
      (max bucket.lastRefillNanos now) now
    have hpolls := polls_le n bucket.maxTokens
      (refilled bucket (bucket.refillFor (now - bucket.lastRefillNanos)))
      bucket.lastRefillNanos now
    exact (Nat.add_le_add_right hafter 8).trans_lt (by omega)

/-- The clock is read after a delay. -/
theorem stepsIn_ask {op : Op} {readAt now before : Nat} (hq : 0 < bucket.refillRateNanos)
    (hprice : bucket.refillRateNanos ≤ maxDelayMs * nanosPerMilli)
    (htokens : bucket.tokens ≤ bucket.maxTokens) (hr : 0 < r) (hroom : batch r ≤ bucket.maxTokens)
    (hd : 1 ≤ d ∧ d ≤ maxDelayMs) (hnow : readAt + d * nanosPerMilli ≤ now)
    (hnow' : now < readAt + 2 ^ 63) :
    stepsIn bucket now (batch r) before (afterAsk r d) (.loadLast op now)
      < 12 * polls bucket.maxTokens r d bucket.tokens bucket.lastRefillNanos readAt + 10 := by
  have hread : ∀ o, Pc.loadLast op now ≠ .clock o := fun o h => nomatch h
  rw [stepsIn_of_read hread, answer_loadLast, lastOf, stepsLeft]
  split
  next hmet =>
    have hless := polls_met d bucket.maxTokens bucket.tokens
      (refilled bucket (bucket.refillFor (now - bucket.lastRefillNanos)) - batch r)
      bucket.lastRefillNanos (batch_pos hr) (batch_le r)
      ((Nat.le_add_right ..).trans hnow)
    have hafter := stepsAfter_loopHead (r - batch r) 1 bucket.maxTokens
      (refilled bucket (bucket.refillFor (now - bucket.lastRefillNanos)) - batch r)
      (max bucket.lastRefillNanos now) now
    exact (Nat.add_le_add_right hafter 8).trans_lt (by omega)
  next hrefused =>
    have hless := polls_refused hq hprice htokens hroom hd rfl hnow hnow' (not_le.mp hrefused)
    have hafter := stepsAfter_loopHead r (min (d * 2) maxDelayMs) bucket.maxTokens
      (refilled bucket (bucket.refillFor (now - bucket.lastRefillNanos)))
      (max bucket.lastRefillNanos now) now
    exact (Nat.add_le_add_right hafter 8).trans_lt (by omega)

/-! ## The invariant -/

/-- Between its calls of `try_consume` the thread rests; a delay is at least
    1 ms, and at most the longest. -/
def Placed : WaitPc → Pc → Prop
  | .first _, _ => True
  | .check _ d, pc => (1 ≤ d ∧ d ≤ maxDelayMs) ∧ ∃ n ok, pc = .tried n ok
  | .sleep _ d, pc => (1 ≤ d ∧ d ≤ maxDelayMs) ∧ ∃ n ok, pc = .tried n ok
  | .ask _ d, _ => 1 ≤ d ∧ d ≤ maxDelayMs
  | .returned ok, pc => ok = true ∧ ∃ n ok, pc = .tried n ok

/-- The invariant of a call that is not cancelled. -/
structure CallInv (b q created bytes : Nat) (s : Waiting) : Prop where
  waits : WaitInv b q created bytes s
  placed : Placed s.pc (s.shared.threads s.me)

/-- A call begins in its first `try_consume`. -/
theorem callInv_waiting (h : BucketInv b q created shared) (me : Nat) :
    CallInv b q created bytes (waiting shared me bytes) :=
  ⟨waitInv_waiting h me, trivial⟩

/-- At the head of the loop the thread has its answer. -/
theorem placed_loopHead {m : Nat} {ok : Bool} (hd : 1 ≤ d ∧ d ≤ maxDelayMs)
    (hw : pc = .tried m ok) : Placed (loopHead r d) pc := by
  rw [loopHead]
  split
  · exact ⟨hd, m, ok, hw⟩
  · exact ⟨rfl, m, ok, hw⟩

/-- **One step** puts the thread where it should be. -/
theorem placed_step (h : Placed s.pc (s.shared.threads s.me)) (hs : uncancelled s a = some t) :
    Placed t.pc (t.shared.threads t.me) := by
  have hstep := step_of_uncancelled hs
  cases waits_of_step hstep with
  | bucket hact hallow =>
      have htried : ∀ {m ok}, s.shared.threads s.me = .tried m ok → _ = Pc.tried m ok :=
        fun hw => (threads_of_resting hact (isCallOf_of_allows hallow) (hw ▸ rfl)).trans hw
      dsimp only
      cases hpc : s.pc with
      | first n => trivial
      | ask r d => rw [hpc] at h; exact h
      | check r d =>
          rw [hpc] at h
          obtain ⟨hd, m, ok, hw⟩ := h
          exact ⟨hd, m, ok, htried hw⟩
      | sleep r d =>
          rw [hpc] at h
          obtain ⟨hd, m, ok, hw⟩ := h
          exact ⟨hd, m, ok, htried hw⟩
      | returned ok =>
          rw [hpc] at h
          obtain ⟨hok, m, ok', hw⟩ := h
          exact ⟨hok, m, ok', htried hw⟩
  | @first n m ok hpc hw =>
      cases ok with
      | true => exact ⟨rfl, m, true, hw⟩
      | false => exact placed_loopHead (by decide) hw
  | @asked r d m ok hpc hw =>
      rw [hpc] at h
      cases ok with
      | true => exact placed_loopHead (by decide) hw
      | false =>
          refine placed_loopHead ⟨?_, min_le_right ..⟩ hw
          have := h.1
          exact le_min (by omega) (by decide)
  | cancelled hpc => exact absurd hs (by simp [uncancelled])
  | goesOn hpc =>
      rw [hpc] at h
      exact h
  | wakes hpc =>
      rw [hpc] at h
      exact h.1

/-- **One step** that does not cancel keeps the invariant. -/
theorem callInv_step (h : CallInv b q created bytes s) (hs : uncancelled s a = some t) :
    CallInv b q created bytes t :=
  ⟨waitInv_step h.waits (step_of_uncancelled hs), placed_step h.placed hs⟩

/-- **A run** that does not cancel keeps it. -/
theorem callInv_reaches (h : CallInv b q created bytes s) (hreach : Reaches uncancelled s t) :
    CallInv b q created bytes t := by
  obtain ⟨acts, hrun⟩ := hreach
  exact run_invariant (fun _ _ _ => callInv_step) h hrun

/-- So does a run of the call alone. -/
theorem CallInv.alone (h : CallInv b q created bytes s) (hreach : Reaches alone s t) :
    CallInv b q created bytes t := by
  obtain ⟨acts, hrun⟩ := hreach
  exact run_invariant (fun _ _ _ hI hs => callInv_step hI (uncancelled_of_alone hs)) h hrun

/-! ## The steps of a call that is left alone -/

/-- The thread has read the clock. -/
def readClock (s : Waiting) (op : Op) (now : Nat) : Waiting :=
  { s with
    shared := { s.shared with clock := max s.shared.clock now }.goto s.me (.loadLast op now)
    readAt := now }

/-- The thread has the time in hand. -/
theorem readClock_threads (s : Waiting) (op : Op) (now : Nat) :
    (readClock s op now).shared.threads (readClock s op now).me = .loadLast op now :=
  goto_self ..

/-- What such a step can be. -/
inductive Alone (s : Waiting) : Waiting → Prop
  | read {op now} (hw : s.shared.threads s.me = .clock op)
      (hallow : s.allows (.clock s.me now) = true) : Alone s (readClock s op now)
  | goes {x n} (hamount : tryAmount (s.shared.threads s.me) = some n)
      (hclock : ∀ op, s.shared.threads s.me ≠ .clock op)
      (htried : ∀ m ok, s.shared.threads s.me ≠ .tried m ok)
      (hkeeps : Keeps s.shared x s.me n) : Alone s { s with shared := x }
  | first {n m ok} (hpc : s.pc = .first n) (hw : s.shared.threads s.me = .tried m ok) :
      Alone s { s with pc := afterFirst n ok }
  | asked {k d m ok} (hpc : s.pc = .ask k d) (hw : s.shared.threads s.me = .tried m ok) :
      Alone s { s with pc := afterAsk k d ok }
  | goesOn {k d} (hpc : s.pc = .check k d) : Alone s { s with pc := .sleep k d }
  | wakes {k d} (hpc : s.pc = .sleep k d) : Alone s (s.tryConsume (batch k) (.ask k d))

/-- Outside of `try_consume` the thread has its last answer. -/
theorem exists_tryAmount (h : CallInv b q created bytes s) :
    ∃ n, tryAmount (s.shared.threads s.me) = some n := by
  obtain ⟨⟨-, hpcs⟩, hplaced⟩ := h
  have hrests : (∃ m ok, s.shared.threads s.me = .tried m ok) →
      ∃ n, tryAmount (s.shared.threads s.me) = some n := by
    rintro ⟨m, ok, hw⟩
    exact ⟨m, hw ▸ rfl⟩
  cases hpc : s.pc with
  | first n => rw [hpc] at hpcs; exact ⟨_, hpcs.2⟩
  | ask k d => rw [hpc] at hpcs; exact ⟨_, hpcs.2⟩
  | check k d => rw [hpc] at hplaced; exact hrests hplaced.2
  | sleep k d => rw [hpc] at hplaced; exact hrests hplaced.2
  | returned ok => rw [hpc] at hplaced; exact hrests hplaced.2

/-- In `try_consume`, past the clock, the thread has one step to take. -/
theorem keeps_own (h : CallInv b q created bytes s)
    (hamount : tryAmount (s.shared.threads s.me) = some n)
    (hclock : ∀ op, s.shared.threads s.me ≠ .clock op)
    (htried : ∀ m ok, s.shared.threads s.me ≠ .tried m ok) :
    ∃ x, goStep s.shared s.me = some x ∧ Keeps s.shared x s.me n :=
  keeps_go (h.waits.bucket.threads s.me) hamount hclock fun ok => htried n ok

/-- **One step** of a call that is left alone. -/
theorem alone_of_step (h : CallInv b q created bytes s) (hs : alone s a = some t) : Alone s t := by
  rw [alone] at hs
  split at hs
  next hown =>
    cases waits_of_step hs with
    | @bucket act x hact hallow =>
        cases act with
        | call v op => cases hown
        | clock v now =>
            have hv : v = s.me := eq_of_beq hown
            subst hv
            cases stepped_of_step hact with
            | clocked hw =>
                have hread := Alone.read hw hallow
                simpa only [readClock, Waiting.shown, if_pos] using hread
        | go v =>
            have hv : v = s.me := eq_of_beq hown
            subst hv
            obtain ⟨n, hamount⟩ := exists_tryAmount h
            have hclock : ∀ op, s.shared.threads s.me ≠ .clock op := by
              intro op hw
              simp only [BlitzBucket.step, goStep, hw] at hact
              cases hact
            have htried : ∀ m ok, s.shared.threads s.me ≠ .tried m ok := by
              intro m ok hw
              simp only [BlitzBucket.step, goStep, hw] at hact
              cases hact
            obtain ⟨y, hy, hkeeps⟩ := keeps_own h hamount hclock htried
            obtain rfl : x = y := Option.some.inj (hact.symm.trans hy)
            exact .goes hamount hclock htried hkeeps
    | first hpc hw => exact .first hpc hw
    | asked hpc hw => exact .asked hpc hw
    | cancelled => cases hown
    | goesOn hpc => exact .goesOn hpc
    | wakes hpc => exact .wakes hpc
  next => cases hs

/-- A step of its own is a step of the call alone. -/
theorem alone_of_own (hown : isOwn s.me a = true) (h : step s a = some t) : alone s a = some t := by
  rw [alone, if_pos hown]
  exact h

/-- In `try_consume` it can take a step; where it reads the clock, it may be
    shown what `allows` allows. -/
theorem alone_asking (h : CallInv b q created bytes s) {now : Nat}
    (hnow : s.allows (.clock s.me now) = true)
    (hresult : ∀ m ok, s.shared.threads s.me = .tried m ok → ∃ t, step s .result = some t) :
    ∃ a t, alone s a = some t ∧ (∀ op, s.shared.threads s.me = .clock op → t.readAt = now) := by
  by_cases hclock : ∀ op, s.shared.threads s.me ≠ .clock op
  · by_cases htried : ∀ m ok, s.shared.threads s.me ≠ .tried m ok
    · obtain ⟨n, hamount⟩ := exists_tryAmount h
      obtain ⟨x, hx, -⟩ := keeps_own h hamount hclock htried
      refine ⟨.bucket (.go s.me), { s with shared := x }, ?_, fun op hw => absurd hw (hclock op)⟩
      refine alone_of_own (beq_self_eq_true _) ?_
      exact congrArg (Option.map _) hx
    · push Not at htried
      obtain ⟨m, ok, hw⟩ := htried
      obtain ⟨t, ht⟩ := hresult m ok hw
      exact ⟨.result, t, alone_of_own rfl ht, fun op hw => absurd hw (hclock op)⟩
  · push Not at hclock
    obtain ⟨op, hw⟩ := hclock
    have hread : step s (.bucket (.clock s.me now)) = some { s with
        shared := { s.shared with clock := max s.shared.clock now }.goto s.me (.loadLast op now),
        readAt := s.shown (.clock s.me now) } := by
      simp only [step, if_pos hnow, BlitzBucket.step, hw, Option.map_some]
    exact ⟨_, _, alone_of_own (beq_self_eq_true _) hread, fun _ _ => if_pos rfl⟩

/-- **No call stops** before it returns. -/
theorem alone_step (h : CallInv b q created bytes s) {now : Nat}
    (hnow : s.allows (.clock s.me now) = true) (hreturned : s.pc ≠ .returned true) :
    ∃ a t, alone s a = some t ∧ (∀ op, s.shared.threads s.me = .clock op → t.readAt = now) := by
  have hrests : (∃ m ok, s.shared.threads s.me = .tried m ok) →
      ∀ {t : Waiting} op, s.shared.threads s.me = .clock op → t.readAt = now := by
    rintro ⟨m, ok, hw⟩ t op hw'
    cases hw.symm.trans hw'
  have hplaced := h.placed
  cases hpc : s.pc with
  | first n =>
      refine alone_asking h hnow fun m ok hw => ⟨{ s with pc := afterFirst n ok }, ?_⟩
      simp only [step, hpc, hw]
  | ask k d =>
      refine alone_asking h hnow fun m ok hw => ⟨{ s with pc := afterAsk k d ok }, ?_⟩
      simp only [step, hpc, hw]
  | check k d =>
      rw [hpc] at hplaced
      refine ⟨.check false, { s with pc := .sleep k d }, alone_of_own rfl ?_, hrests hplaced.2⟩
      simp only [step, hpc, Bool.false_eq_true, if_false]
  | sleep k d =>
      rw [hpc] at hplaced
      refine ⟨.wake, s.tryConsume (batch k) (.ask k d), alone_of_own rfl ?_, hrests hplaced.2⟩
      simp only [step, hpc]
  | returned ok =>
      rw [hpc] at hplaced
      exact absurd (hplaced.1 ▸ hpc) hreturned

/-- There is always a time that it may be shown. -/
theorem allows_delay (h : CallInv b q created bytes s) :
    s.allows (.clock s.me (s.readAt + maxDelayMs * nanosPerMilli)) = true := by
  have hplaced := h.placed
  cases hpc : s.pc with
  | ask k d =>
      rw [hpc] at hplaced
      have hlong : s.readAt + d * nanosPerMilli ≤ s.readAt + maxDelayMs * nanosPerMilli :=
        Nat.add_le_add_left (Nat.mul_le_mul_right _ hplaced.2) _
      have hsoon : s.readAt + maxDelayMs * nanosPerMilli < s.readAt + 2 ^ 63 :=
        Nat.add_lt_add_left (by decide) _
      simp only [Waiting.allows, hpc, bne_self_eq_false, Bool.false_or, decide_eq_true hlong,
        decide_eq_true hsoon, Bool.and_self]
  | _ => simp only [Waiting.allows, hpc]

/-! ## A call that ends -/

theorem stepsFrom_first (hpc : s.pc = .first n) :
    stepsFrom s = stepsIn s.shared.bucket s.readAt n (12 * (n * (s.shared.bucket.maxTokens + 101)
      + s.shared.bucket.maxTokens + 100 + s.shared.bucket.lastRefillNanos) + 21)
      (afterFirst n) (s.shared.threads s.me) := by
  simp only [stepsFrom, hpc]

/-- The bound in a try of the loop. -/
theorem stepsFrom_ask (hpc : s.pc = .ask r d) :
    stepsFrom s = stepsIn s.shared.bucket s.readAt (batch r)
      (12 * polls s.shared.bucket.maxTokens r d s.shared.bucket.tokens
        s.shared.bucket.lastRefillNanos s.readAt + 10)
      (afterAsk r d) (s.shared.threads s.me) := by
  simp only [stepsFrom, hpc]

/-- After an answer, what is left is what was left for it. -/
theorem stepsFrom_next {pc : WaitPc} (hnext : pc = .returned true ∨ ∃ k d, pc = .check k d) :
    stepsFrom { s with pc } = stepsAfter s.shared.bucket.maxTokens s.shared.bucket.tokens
      s.shared.bucket.lastRefillNanos s.readAt pc := by
  obtain rfl | ⟨k, d, rfl⟩ := hnext
  · rfl
  · rfl

/-- An answer leaves what comes after it. -/
theorem stepsIn_tried {m readAt before : Nat} {ok : Bool} {next : Bool → WaitPc} :
    stepsIn bucket readAt n before next (.tried m ok)
      = stepsAfter bucket.maxTokens bucket.tokens bucket.lastRefillNanos readAt (next ok) + 1 :=
  rfl

/-- The head of the loop goes into it, or past it. -/
theorem loopHead_cases (k d : Nat) :
    loopHead k d = .returned true ∨ ∃ k' d', loopHead k d = .check k' d' := by
  rw [loopHead]
  split
  · exact Or.inr ⟨k, d, rfl⟩
  · exact Or.inl rfl

/-- Behind the first try the call returns or looks for the cancellation. -/
theorem afterFirst_cases (n : Nat) (ok : Bool) :
    afterFirst n ok = .returned true ∨ ∃ k d, afterFirst n ok = .check k d := by
  cases ok with
  | true => exact Or.inl rfl
  | false => exact loopHead_cases n 1

/-- Behind a try of the loop the call returns or looks for the cancellation. -/
theorem afterAsk_cases (k d : Nat) (ok : Bool) :
    afterAsk k d ok = .returned true ∨ ∃ k' d', afterAsk k d ok = .check k' d' := by
  cases ok with
  | true => exact loopHead_cases (k - batch k) 1
  | false => exact loopHead_cases k (min (d * 2) maxDelayMs)

/-- A thread without its answer is in one of the two `try_consume`. -/
theorem CallInv.asking (h : CallInv b q created bytes s)
    (htried : ∀ m ok, s.shared.threads s.me ≠ .tried m ok) :
    (∃ n, s.pc = .first n) ∨ ∃ k d, s.pc = .ask k d := by
  have hplaced := h.placed
  cases hpc : s.pc with
  | first n => exact Or.inl ⟨n, rfl⟩
  | ask k d => exact Or.inr ⟨k, d, rfl⟩
  | check k d =>
      rw [hpc] at hplaced
      obtain ⟨-, m, ok, hw⟩ := hplaced
      exact absurd hw (htried m ok)
  | sleep k d =>
      rw [hpc] at hplaced
      obtain ⟨-, m, ok, hw⟩ := hplaced
      exact absurd hw (htried m ok)
  | returned ok =>
      rw [hpc] at hplaced
      obtain ⟨-, m, ok', hw⟩ := hplaced
      exact absurd hw (htried m ok')

/-- What a call is in that asks for a batch. -/
theorem CallInv.amount_ask (h : CallInv b q created bytes s) (hpc : s.pc = .ask r d) :
    (0 < r ∧ r ≤ bytes) ∧ (1 ≤ d ∧ d ≤ maxDelayMs) ∧
      tryAmount (s.shared.threads s.me) = some (batch r) := by
  obtain ⟨⟨-, hpcs⟩, hplaced⟩ := h
  rw [hpc] at hpcs hplaced
  exact ⟨hpcs.1, hplaced, hpcs.2⟩

/-- What a call is in that is in its first `try_consume`. -/
theorem CallInv.amount_first (h : CallInv b q created bytes s) (hpc : s.pc = .first n) :
    n = bytes ∧ tryAmount (s.shared.threads s.me) = some bytes := by
  have hpcs := h.waits.pcs
  rw [hpc] at hpcs
  exact hpcs

/-- **Each step** of a call that is left alone lowers the bound. -/
theorem stepsFrom_lt (h : CallInv b q created bytes s) (hq : 0 < q) (hroom : batch bytes ≤ b)
    (hprice : bytes = 0 ∨ q ≤ maxDelayMs * nanosPerMilli) (hs : Alone s t) :
    stepsFrom t < stepsFrom s := by
  have hb := h.waits.bucket
  cases hs with
  | @read op now hw hallow =>
      have htried : ∀ m ok, s.shared.threads s.me ≠ .tried m ok := by
        intro m ok hw'
        cases hw.symm.trans hw'
      obtain ⟨n, hpc⟩ | ⟨r, d, hpc⟩ := h.asking htried
      · have hpc' : (readClock s op now).pc = .first n := hpc
        rw [stepsFrom_first hpc, hw, stepsFrom_first hpc', readClock_threads]
        exact stepsIn_first
      · obtain ⟨hr, hd, -⟩ := h.amount_ask hpc
        have hpc' : (readClock s op now).pc = .ask r d := hpc
        rw [stepsFrom_ask hpc, hw, stepsFrom_ask hpc', readClock_threads]
        simp only [Waiting.allows, hpc, bne_self_eq_false, Bool.false_or, Bool.and_eq_true,
          decide_eq_true_eq] at hallow
        have hfits : batch r ≤ s.shared.bucket.maxTokens :=
          hb.max_eq.symm ▸ (batch_mono hr.2).trans hroom
        have hcheap : s.shared.bucket.refillRateNanos ≤ maxDelayMs * nanosPerMilli :=
          hb.rate_eq.symm ▸ hprice.resolve_left (by omega)
        exact stepsIn_ask (hb.rate_eq.symm ▸ hq) hcheap (hb.max_eq.symm ▸ hb.tokens_le) hr.1 hfits
          hd hallow.1 hallow.2
  | @goes x n hamount hclock htried hkeeps =>
      obtain ⟨m, hpc⟩ | ⟨r, d, hpc⟩ := h.asking htried
      · obtain ⟨rfl, hbytes⟩ := h.amount_first hpc
        obtain rfl : n = m := Option.some.inj (hamount.symm.trans hbytes)
        rw [stepsFrom_first hpc, stepsFrom_first (s := { s with shared := x }) hpc]
        exact stepsIn_keeps hkeeps hclock
      · obtain ⟨-, -, hbatch⟩ := h.amount_ask hpc
        obtain rfl : n = batch r := Option.some.inj (hamount.symm.trans hbatch)
        rw [stepsFrom_ask hpc, stepsFrom_ask (s := { s with shared := x }) hpc]
        exact stepsIn_keeps hkeeps hclock
  | @first n m ok hpc hw =>
      rw [stepsFrom_first hpc, hw, stepsIn_tried, stepsFrom_next (afterFirst_cases n ok)]
      exact Nat.lt_succ_self _
  | @asked k d m ok hpc hw =>
      rw [stepsFrom_ask hpc, hw, stepsIn_tried, stepsFrom_next (afterAsk_cases k d ok)]
      exact Nat.lt_succ_self _
  | @goesOn k d hpc =>
      simp only [stepsFrom, hpc]
      omega
  | @wakes k d hpc =>
      have hclock : (s.tryConsume (batch k) (.ask k d)).shared.threads s.me
          = .clock (.tryConsume (batch k)) :=
        (goto_self ..).trans (enter_clock hb.limited (hb.rate_eq.symm ▸ hq))
      have hpc' : (s.tryConsume (batch k) (.ask k d)).pc = .ask k d := rfl
      rw [stepsFrom_ask hpc', show (s.tryConsume (batch k) (.ask k d)).me = s.me from rfl, hclock]
      simp only [stepsFrom, hpc]
      exact Nat.lt_succ_self _

/-- The invariant of a call, in its own steps. -/
theorem callInv_alone (h : CallInv b q created bytes s) (hs : alone s a = some t) :
    CallInv b q created bytes t :=
  callInv_step h (uncancelled_of_alone hs)

/-- **A call ends** that has room for its first batch and whose tokens cost
    no more than the longest delay. -/
theorem ends_of_room (h : CallInv b q created bytes s) (hq : 0 < q) (hroom : batch bytes ≤ b)
    (hprice : bytes = 0 ∨ q ≤ maxDelayMs * nanosPerMilli) : Ends s := by
  constructor
  · refine ⟨stepsFrom s, fun acts t hrun => ?_⟩
    refine length_le_of_measure (I := CallInv b q created bytes) (fun _ _ _ => callInv_alone) ?_
      h hrun
    intro s a s' hI hs
    exact stepsFrom_lt hI hq hroom hprice (alone_of_step hI hs)
  · intro t hreach
    by_cases hreturned : t.pc = .returned true
    · exact Or.inl hreturned
    · have ht := h.alone hreach
      obtain ⟨a, u, hu, -⟩ := alone_step ht (allows_delay ht) hreturned
      exact Or.inr ⟨a, u, hu⟩

/-! ## A call that does not end -/

/-- A call that can go on for ever does not end. -/
theorem not_ends {I : Waiting → Prop} (hnext : ∀ s, I s → ∃ a t, alone s a = some t ∧ I t)
    (h : I s) : ¬ Ends s := by
  rintro ⟨⟨bound, hbound⟩, -⟩
  obtain ⟨acts, t, hrun, hlen⟩ := exists_run_of_progress hnext h (bound + 1)
  have := hbound acts t hrun
  omega

/-- Without room for its first batch. -/
theorem not_ends_of_small (h : CallInv b q created bytes s) (hsmall : b < batch bytes)
    (hst : Stuck bytes s) : ¬ Ends s := by
  refine not_ends (I := fun s => CallInv b q created bytes s ∧ Stuck bytes s) ?_ ⟨h, hst⟩
  rintro s ⟨hI, hst⟩
  have hreturned : s.pc ≠ .returned true := never_returns hI.waits hsmall hst Reaches.refl
  obtain ⟨a, t, ht, -⟩ := alone_step hI (allows_delay hI) hreturned
  have hstep := step_of_uncancelled (uncancelled_of_alone ht)
  exact ⟨a, t, ht, callInv_alone hI ht, stuck_step hI.waits hsmall hst hstep⟩

/-- The bucket is empty, and the time is credited up to where the thread has
    read the clock; a `try_consume` is about to be refused. -/
def Starved (s : Waiting) : Prop :=
  let bucket := s.shared.bucket
  let pc := s.shared.threads s.me
  match s.pc with
  | .first n =>
      answer bucket n pc = (false, 0) ∧ (lastOf bucket pc = s.readAt ∨ ∃ op, pc = .clock op)
  | .check _ _ => bucket.tokens = 0 ∧ bucket.lastRefillNanos = s.readAt
  | .sleep _ _ => bucket.tokens = 0 ∧ bucket.lastRefillNanos = s.readAt
  | .ask r _ => answer bucket (batch r) pc = (false, 0) ∧ lastOf bucket pc = s.readAt
  | .returned _ => False

/-- The time at which it reads the clock: that of the last refill, or just
    after the delay. -/
def readsAt (s : Waiting) : Nat :=
  match s.pc with
  | .ask _ d => s.readAt + d * nanosPerMilli
  | _ => s.shared.bucket.lastRefillNanos

/-- That time may be shown. -/
theorem allows_readsAt (h : CallInv b q created bytes s) :
    s.allows (.clock s.me (readsAt s)) = true := by
  have hplaced := h.placed
  cases hpc : s.pc with
  | ask k d =>
      rw [hpc] at hplaced
      have hshort : d * nanosPerMilli ≤ maxDelayMs * nanosPerMilli :=
        Nat.mul_le_mul_right _ hplaced.2
      have hsoon : s.readAt + d * nanosPerMilli < s.readAt + 2 ^ 63 :=
        Nat.add_lt_add_left (hshort.trans_lt (by decide)) _
      simp only [Waiting.allows, readsAt, hpc, bne_self_eq_false, Bool.false_or, le_refl,
        decide_true, decide_eq_true hsoon, Bool.and_self]
  | _ => simp only [Waiting.allows, hpc]

/-- An empty bucket refuses. -/
theorem answer_refused {op : Op} (hn : 0 < n) (hempty : bucket.tokens = 0) :
    answer bucket n (.clock op) = (false, 0) := by
  have hnot : ¬ n ≤ bucket.tokens := by omega
  exact (if_neg hnot).trans (congrArg (Prod.mk false) hempty)

/-- What the clock shows by then is worth no token. -/
theorem starved_read {op : Op} (h : CallInv b q created bytes s)
    (hq : maxDelayMs * nanosPerMilli < q) (hst : Starved s)
    (hw : s.shared.threads s.me = .clock op) : Starved (readClock s op (readsAt s)) := by
  have hrate := h.waits.bucket.rate_eq
  have htried : ∀ m ok, s.shared.threads s.me ≠ .tried m ok := by
    intro m ok hw'
    cases hw.symm.trans hw'
  simp only [Starved, hw] at hst
  obtain ⟨n, hpc⟩ | ⟨r, d, hpc⟩ := h.asking htried
  · have hnow : readsAt s = s.shared.bucket.lastRefillNanos := by simp only [readsAt, hpc]
    have hearly : readsAt s - s.shared.bucket.lastRefillNanos
        < s.shared.bucket.refillRateNanos := by
      rw [hnow, Nat.sub_self, hrate]
      exact (Nat.zero_le _).trans_lt hq
    have hpc' : (readClock s op (readsAt s)).pc = .first n := hpc
    simp only [hpc] at hst
    simp only [Starved, hpc', readClock_threads]
    refine ⟨(answer_early hearly).trans hst.1, Or.inl ?_⟩
    exact max_eq_right hnow.ge
  · obtain ⟨-, hd, -⟩ := h.amount_ask hpc
    simp only [hpc] at hst
    have hlast : s.shared.bucket.lastRefillNanos = s.readAt := hst.2
    have hnow : readsAt s = s.readAt + d * nanosPerMilli := by simp only [readsAt, hpc]
    have hearly : readsAt s - s.shared.bucket.lastRefillNanos
        < s.shared.bucket.refillRateNanos := by
      rw [hnow, hlast, Nat.add_sub_cancel_left, hrate]
      exact (Nat.mul_le_mul_right _ hd.2).trans_lt hq
    have hpc' : (readClock s op (readsAt s)).pc = .ask r d := hpc
    simp only [Starved, hpc', readClock_threads]
    refine ⟨(answer_early hearly).trans hst.1, ?_⟩
    exact max_eq_right (hlast ▸ hnow ▸ Nat.le_add_right ..)

/-- Past the clock the answer is decided. -/
theorem starved_goes {x : Shared} (h : CallInv b q created bytes s) (hst : Starved s)
    (hamount : tryAmount (s.shared.threads s.me) = some n)
    (hclock : ∀ op, s.shared.threads s.me ≠ .clock op)
    (htried : ∀ m ok, s.shared.threads s.me ≠ .tried m ok)
    (hkeeps : Keeps s.shared x s.me n) : Starved { s with shared := x } := by
  obtain ⟨m, hpc⟩ | ⟨r, d, hpc⟩ := h.asking htried
  · obtain ⟨rfl, hfirst⟩ := h.amount_first hpc
    obtain rfl : n = m := Option.some.inj (hamount.symm.trans hfirst)
    simp only [Starved, hpc] at hst ⊢
    refine ⟨hkeeps.answer_eq.trans hst.1, Or.inl ?_⟩
    obtain hlast | ⟨op, hw⟩ := hst.2
    · exact hkeeps.lastOf_eq.trans hlast
    · exact absurd hw (hclock op)
  · obtain ⟨-, -, hbatch⟩ := h.amount_ask hpc
    obtain rfl : n = batch r := Option.some.inj (hamount.symm.trans hbatch)
    simp only [Starved, hpc] at hst ⊢
    exact ⟨hkeeps.answer_eq.trans hst.1, hkeeps.lastOf_eq.trans hst.2⟩

/-- **One step** of a call that starves, and reads the clock as soon as it may. -/
theorem starved_step (h : CallInv b q created bytes s) (hbytes : 0 < bytes)
    (hq : maxDelayMs * nanosPerMilli < q) (hst : Starved s) (hs : Alone s t)
    (hread : ∀ op, s.shared.threads s.me = .clock op → t.readAt = readsAt s) : Starved t := by
  have hb := h.waits.bucket
  cases hs with
  | @read op now hw hallow =>
      obtain rfl : now = readsAt s := hread op hw
      exact starved_read h hq hst hw
  | goes hamount hclock htried hkeeps => exact starved_goes h hst hamount hclock htried hkeeps
  | @first n m ok hpc hw =>
      obtain ⟨rfl, -⟩ := h.amount_first hpc
      simp only [Starved, hpc, hw, answer, Prod.mk.injEq] at hst
      obtain ⟨⟨rfl, hempty⟩, hlast⟩ := hst
      obtain hlast | ⟨op, hop⟩ := hlast
      · have hnext : afterFirst n false = .check n 1 := if_pos hbytes
        simp only [Starved, hnext]
        exact ⟨hempty, hlast⟩
      · cases hop
  | @asked k d m ok hpc hw =>
      obtain ⟨hk, -, -⟩ := h.amount_ask hpc
      simp only [Starved, hpc, hw, answer, Prod.mk.injEq] at hst
      obtain ⟨⟨rfl, hempty⟩, hlast⟩ := hst
      have hnext : afterAsk k d false = .check k (min (d * 2) maxDelayMs) := if_pos hk.1
      simp only [Starved, hnext]
      exact ⟨hempty, hlast⟩
  | @goesOn k d hpc =>
      simp only [Starved, hpc] at hst
      exact hst
  | @wakes k d hpc =>
      have hk := h.waits.pcs
      rw [hpc] at hk
      simp only [Starved, hpc] at hst
      have hclock : (s.tryConsume (batch k) (.ask k d)).shared.threads s.me
          = .clock (.tryConsume (batch k)) :=
        (goto_self ..).trans
          (enter_clock hb.limited (hb.rate_eq.symm ▸ (Nat.zero_le _).trans_lt hq))
      show answer _ _ ((s.tryConsume (batch k) (.ask k d)).shared.threads s.me) = _ ∧
        lastOf _ ((s.tryConsume (batch k) (.ask k d)).shared.threads s.me) = _
      rw [hclock]
      exact ⟨answer_refused (batch_pos hk.1) hst.1, hst.2⟩

/-- With an empty bucket whose tokens cost more than the longest delay. -/
theorem not_ends_of_starved (h : CallInv b q created bytes s) (hbytes : 0 < bytes)
    (hq : maxDelayMs * nanosPerMilli < q) (hst : Starved s) : ¬ Ends s := by
  refine not_ends (I := fun s => CallInv b q created bytes s ∧ Starved s) ?_ ⟨h, hst⟩
  rintro s ⟨hI, hst⟩
  have hreturned : s.pc ≠ .returned true := by
    intro hpc
    simp only [Starved, hpc] at hst
  obtain ⟨a, t, ht, hread⟩ := alone_step hI (allows_readsAt hI) hreturned
  exact ⟨a, t, ht, callInv_alone hI ht, starved_step hI hbytes hq hst (alone_of_step hI ht) hread⟩

/-- Another thread takes all there is, at the time of the bucket's creation. -/
theorem exists_empty (b created : Nat) {perSec : Nat} (hrate : 0 < nanosPerSec / perSec) :
    ∃ shared, Reaches BlitzBucket.step (start b perSec created) shared ∧
      shared.threads 0 = .idle ∧ shared.bucket.tokens = 0 ∧
      shared.bucket.lastRefillNanos = created := by
  have hbucket : BucketInv b (nanosPerSec / perSec) created (start b perSec created) :=
    bucketInv_start (Or.inr hrate)
  have hcall : BlitzBucket.step (start b perSec created) (.call 1 (.tryConsume b))
      = some ((start b perSec created).goto 1 (.clock (.tryConsume b))) := by
    rw [← enter_clock hbucket.limited hrate]
    rfl
  have hrest : run BlitzBucket.step ((start b perSec created).goto 1 (.clock (.tryConsume b)))
      [.clock 1 created, .go 1, .go 1, .go 1]
      = some (({ (start b perSec created).setTokens 0 with consumed := b }).goto 1
          (.tried b true)) := by
    simp [run, BlitzBucket.step, goStep, start, Shared.goto, Shared.setTokens, TokenBucket.new,
      afterRefill]
  refine ⟨_, (Reaches.single hcall).trans ⟨_, hrest⟩, ?_, rfl, rfl⟩
  rfl

/-! ## When waiting ends -/

/-- A call of `wait_consume(bytes)` begins, whatever the bucket has been
    through. -/
def Called (b perSec created bytes : Nat) (s : Waiting) : Prop :=
  ∃ shared me, Reaches BlitzBucket.step (start b perSec created) shared ∧
    (shared.threads me).resting = true ∧ s = waiting shared me bytes

/-- What is expected of a call: every amount that it asks for is within the
    capacity, and wherever it has come to without being cancelled, it ends
    when it is left alone. -/
structure Meets (b : Nat) (s : Waiting) : Prop where
  within : ∀ t, Reaches step s t → ∀ remaining delayMs, t.pc = .ask remaining delayMs →
    batch remaining ≤ b
  ends : ∀ t, Reaches uncancelled s t → Ends t

section Returns

variable {perSec : Nat}

/-- The bucket that a call finds. -/
theorem bucketInv_called (hrate : 0 < nanosPerSec / perSec)
    (hreach : Reaches BlitzBucket.step (start b perSec created) shared) :
    BucketInv b (nanosPerSec / perSec) created shared := by
  obtain ⟨acts, hrun⟩ := hreach
  exact run_invariant (fun _ _ _ => bucketInv_step) (bucketInv_start (Or.inr hrate)) hrun

/-- A price above the longest delay lets a call go on for ever. -/
theorem exists_endless (b created : Nat) (hrate : 0 < nanosPerSec / perSec) (hbytes : 0 < bytes)
    (hdear : maxDelayMs * nanosPerMilli < nanosPerSec / perSec) :
    ∃ s, Called b perSec created bytes s ∧ ¬ Ends s := by
  obtain ⟨shared, hreach, hidle, hempty, -⟩ :=
    exists_empty b created hrate
  have hbucket := bucketInv_called hrate hreach
  refine ⟨waiting shared 0 bytes, ⟨shared, 0, hreach, by rw [hidle]; rfl, rfl⟩, ?_⟩
  refine not_ends_of_starved (callInv_waiting hbucket 0) hbytes hdear ?_
  have hclock : (waiting shared 0 bytes).shared.threads 0 = .clock (.tryConsume bytes) :=
    (goto_self ..).trans (enter_clock hbucket.limited (hbucket.rate_eq.symm ▸ hrate))
  show answer _ _ ((waiting shared 0 bytes).shared.threads 0) = _ ∧
    (_ ∨ ∃ op, (waiting shared 0 bytes).shared.threads 0 = _)
  rw [hclock]
  exact ⟨answer_refused hbytes hempty, Or.inr ⟨_, rfl⟩⟩

/-- **Waiting for tokens** asks for what the bucket can hold, and ends,
    exactly if there is room for the first batch and a token costs no more
    than the longest delay.  Without the room it never returns that it has
    consumed. -/
theorem waitConsume_returns_iff (hrate : 0 < nanosPerSec / perSec) :
    ((∀ s, Called b perSec created bytes s → Meets b s) ↔
      batch bytes ≤ b ∧ (bytes = 0 ∨ nanosPerSec / perSec ≤ maxDelayMs * nanosPerMilli)) ∧
    (∀ s, Called b perSec created bytes s →
      ((∀ t, Reaches step s t → ∀ remaining delayMs, t.pc = .ask remaining delayMs →
        batch remaining ≤ b) ↔ batch bytes ≤ b)) ∧
    (b < batch bytes → ∀ s, Called b perSec created bytes s →
      ∀ t, Reaches step s t → t.pc ≠ .returned true) := by
  have hasks : ∀ s, Called b perSec created bytes s →
      ((∀ t, Reaches step s t → ∀ remaining delayMs, t.pc = .ask remaining delayMs →
        batch remaining ≤ b) ↔ batch bytes ≤ b) := by
    rintro s ⟨shared, me, hreach, -, rfl⟩
    have hbucket := bucketInv_called hrate hreach
    exact asks_within_iff (waitInv_waiting hbucket me) (enter_ne_tried hbucket _ me) rfl
  refine ⟨⟨fun hall => ?_, fun hcond => ?_⟩, hasks, fun hsmall => ?_⟩
  · have hstart : Called b perSec created bytes (waiting (start b perSec created) 0 bytes) :=
      ⟨_, 0, Reaches.refl, rfl, rfl⟩
    refine ⟨(hasks _ hstart).mp (hall _ hstart).within, ?_⟩
    by_contra hnot
    push Not at hnot
    obtain ⟨s, hs, hends⟩ :=
      exists_endless b created hrate (Nat.pos_of_ne_zero hnot.1) hnot.2
    exact hends ((hall s hs).ends s Reaches.refl)
  · rintro s hs
    refine ⟨(hasks s hs).mpr hcond.1, fun t hreach => ?_⟩
    obtain ⟨shared, me, hshared, -, rfl⟩ := hs
    have hbucket := bucketInv_called hrate hshared
    exact ends_of_room (callInv_reaches (callInv_waiting hbucket me) hreach) hrate hcond.1 hcond.2
  · rintro s ⟨shared, me, hreach, -, rfl⟩ t
    have hbucket := bucketInv_called hrate hreach
    exact never_returns (waitInv_waiting hbucket me) hsmall (enter_ne_tried hbucket _ me)

theorem waitConsume_returns_iff_mebibyte :
    0 < nanosPerSec / 1048576 ∧
      ((∀ s, Called 1048576 1048576 0 1048577 s → Meets 1048576 s) ↔
        batch 1048577 ≤ 1048576 ∧
          (1048577 = 0 ∨ nanosPerSec / 1048576 ≤ maxDelayMs * nanosPerMilli)) :=
  ⟨by decide, (waitConsume_returns_iff (b := 1048576) (by decide)).1⟩

/-- A hundred thousand bytes out of a bucket of a thousand: the whole is
    refused, and a batch of 65536 is asked for. -/
def askTooMuch : List Act :=
  [.bucket (.clock 0 0), .bucket (.go 0), .bucket (.go 0), .result, .check false, .wake]

theorem waitConsume_thousand :
    0 < nanosPerSec / 1000 ∧
      (run step (waiting (start 1000 1000 0) 0 100000) askTooMuch).any
        (fun s => s.pc == .ask 100000 1 && batch 100000 == 65536) = true ∧
      (∀ t, Reaches step (waiting (start 1000 1000 0) 0 100000) t → t.pc ≠ .returned true) ∧
      ¬ ∀ s, Called 1000 1000 0 100000 s → Meets 1000 s := by
  have hbucket : BucketInv 1000 (nanosPerSec / 1000) 0 (start 1000 1000 0) :=
    bucketInv_start (Or.inr (by decide))
  refine ⟨by decide, by decide, fun t => ?_, fun hall => ?_⟩
  · exact never_returns (waitInv_waiting hbucket 0) (by decide) (enter_ne_tried hbucket _ 0)
  have hends := (hall _ ⟨_, 0, Reaches.refl, rfl, rfl⟩).ends _ Reaches.refl
  exact not_ends_of_small (callInv_waiting hbucket 0) (by decide) (enter_ne_tried hbucket _ 0) hends

end Returns

end BlitzWaitConsumeEnd
